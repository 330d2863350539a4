import Mathlib.Data.List.Basic
import PoolControl.Routing.Handler
import PoolControl.Trial.Fixture

/-! To which keys an event is mapped.

Among the references of a dependent to owners of one kind at most one counts: the only one, or
the only controlling one of several (`Mapping.Counts`). `Mapping.Resolved` lists what a
dependent can be mapped to, each with its reason, and the reasons exclude one another, so they
tell what becomes of a dependent (`ownerOf_eq_iff`).

A handler maps the new object of an event, and the old one too if its mode says so
(`MapMode.sides`). What it triggers is what any of them is mapped to, and the first of them that
cannot be mapped is why it fails. `resolves_owner` puts both together. -/
namespace PoolControl

/-- What a reference means has its uid, if it gives one. -/
theorem OwnerReference.means_iff {r : OwnerReference} {m : Metadata} :
    r.means m = true ↔ ∀ u, r.uid = some u → u = m.uid := by
  unfold means
  cases r.uid <;> simp

namespace Mapping

/-! ### The reference that counts -/

/-- The reference that counts: the only one, or the only controlling one of several. -/
inductive Counts (refs : List OwnerReference) (r : OwnerReference) : Prop
  | only (alone : refs = [r])
  | controlling (several : 2 ≤ refs.length) (alone : refs.filter (·.controller) = [r])

/-- Several references of which not exactly one is controlling. -/
def Ambiguous (refs : List OwnerReference) : Prop :=
  2 ≤ refs.length ∧ refs.countP (·.controller) ≠ 1

section

variable {refs : List OwnerReference} {r r' : OwnerReference}

theorem Counts.mem (h : Counts refs r) : r ∈ refs := by
  cases h with
  | only alone => exact alone ▸ List.mem_singleton_self r
  | controlling _ alone =>
    have mem : r ∈ refs.filter (·.controller) := alone ▸ List.mem_singleton_self r
    exact (List.mem_filter.mp mem).1

theorem Counts.unique (h : Counts refs r) (h' : Counts refs r') : r = r' := by
  cases h with
  | only alone =>
    subst alone
    exact (List.mem_singleton.mp h'.mem).symm
  | controlling several alone =>
    cases h' with
    | only alone' =>
      subst alone'
      exact absurd several (Nat.not_succ_le_self 1)
    | controlling _ alone' => exact List.singleton_inj.mp (alone.symm.trans alone')

theorem Counts.not_ambiguous (h : Counts refs r) : ¬ Ambiguous refs := by
  rintro ⟨several, count⟩
  cases h with
  | only alone =>
    subst alone
    exact Nat.not_succ_le_self 1 several
  | controlling _ alone =>
    rw [List.countP_eq_length_filter, alone] at count
    exact count rfl

/-- The other references are further ones: there are several, and they do not control. -/
theorem Counts.others (h : Counts refs r) (mem : r' ∈ refs) :
    r' = r ∨ 2 ≤ refs.length ∧ r'.controller = false := by
  cases h with
  | only alone => exact .inl (List.mem_singleton.mp (alone ▸ mem))
  | controlling several alone =>
    by_cases controls : r'.controller = true
    · have mem' : r' ∈ refs.filter (·.controller) := List.mem_filter.mpr ⟨mem, controls⟩
      rw [alone] at mem'
      exact .inl (List.mem_singleton.mp mem')
    · exact .inr ⟨several, eq_false_of_ne_true controls⟩

/-- If the reference that counts will not do, one that does is a further one. -/
theorem Counts.further (h : Counts refs r) {P : OwnerReference → Prop} (unfit : ¬ P r) :
    (∃ r' ∈ refs, P r') ↔ ∃ r' ∈ refs, (2 ≤ refs.length ∧ r'.controller = false) ∧ P r' := by
  constructor
  · rintro ⟨r', mem, fits⟩
    refine ⟨r', mem, (h.others mem).resolve_left ?_, fits⟩
    rintro rfl
    exact unfit fits
  · rintro ⟨r', mem, -, fits⟩
    exact ⟨r', mem, fits⟩

/-- Which reference is taken from a list, or why none is. -/
inductive Taken (object : Key) (kind : Kind) (refs : List OwnerReference) :
    Except MappingError (Option OwnerReference) → Prop
  | nobody (none_ : refs = []) : Taken object kind refs (.ok none)
  | somebody {r : OwnerReference} (counts : Counts refs r) : Taken object kind refs (.ok (some r))
  | ambiguous (several : Ambiguous refs) :
      Taken object kind refs (.error (.ambiguousOwner object kind refs.length))

theorem taken_controlling (object : Key) (kind : Kind) (refs : List OwnerReference) :
    Taken object kind refs (controlling object kind refs) := by
  match refs with
  | [] => exact .nobody rfl
  | [r] => exact .somebody (.only rfl)
  | r₁ :: r₂ :: rest =>
    have several : 2 ≤ (r₁ :: r₂ :: rest).length := Nat.le_add_left ..
    simp only [controlling]
    split
    · rename_i alone
      exact .somebody (.controlling several alone)
    · rename_i other
      refine .ambiguous ⟨several, fun one => ?_⟩
      rw [List.countP_eq_length_filter] at one
      obtain ⟨r, alone⟩ := List.length_eq_one_iff.mp one
      exact other r alone

theorem not_ambiguous_nil : ¬ Ambiguous [] := fun h => Nat.not_succ_le_zero 1 h.1

theorem nobody_or_counts (h : ¬ Ambiguous refs) : refs = [] ∨ ∃ r, Counts refs r := by
  have taken := taken_controlling default default refs
  generalize controlling _ _ _ = taken_ at taken
  cases taken with
  | nobody none_ => exact .inl none_
  | somebody counts => exact .inr ⟨_, counts⟩
  | ambiguous several => exact absurd several h

end

/-! ### What a dependent is mapped to -/

section

variable {S : Type} [Resource S]

/-- The references of an object to owners of kind `O`. -/
def references (O : Type) [Resource O] (x : S) : List OwnerReference :=
  (Resource.metadata x).ownersOfKind (Resource.kind O).name

/-- Whether a reference of an object finds an owner: one of that name is cached in the object's
namespace, it has the uid that the reference gives, if it gives one, and the predicate keeps
it. -/
def Finds (O : Type) [Cached O] (p : Predicate) (caches : Caches) (x : S) (r : OwnerReference) :
    Prop :=
  ∃ owner : O, (Cached.store caches).get? ⟨(Resource.metadata x).ns, r.name⟩ = some owner ∧
    (∀ u, r.uid = some u → u = (Resource.metadata owner).uid) ∧
    p.keeps caches.clusters (.generic owner) = true

/-- What a dependent is mapped to, and why. -/
inductive Resolved (O : Type) [Cached O] (p : Predicate) (caches : Caches) (x : S) :
    Except MappingError (OrderedSet Key) → Prop
  | nobody (none_ : references O x = []) : Resolved O p caches x (.ok ∅)
  | ambiguous (several : Ambiguous (references O x)) :
      Resolved O p caches x (.error
        (.ambiguousOwner (Resource.key x) (Resource.kind O) (references O x).length))
  | malformed {r : OwnerReference} (counts : Counts (references O x) r) (nameless : r.name = "") :
      Resolved O p caches x (.error (.malformedOwner (Resource.key x)
        ((Resource.kind O).name ++ " owner reference has an empty name")))
  | missed {r : OwnerReference} (counts : Counts (references O x) r) (named : r.name ≠ "")
      (lost : ¬ Finds O p caches x r) : Resolved O p caches x (.ok ∅)
  | found {r : OwnerReference} (counts : Counts (references O x) r) (named : r.name ≠ "")
      (finds : Finds O p caches x r) :
      Resolved O p caches x (.ok (OrderedSet.single ⟨(Resource.metadata x).ns, r.name⟩))

variable {O : Type} [Cached O] {p : Predicate} {caches : Caches} {x : S}
  {mapped mapped' : Except MappingError (OrderedSet Key)}

theorem resolved_ownerOf (O : Type) [Cached O] (p : Predicate) (caches : Caches) (x : S) :
    Resolved O p caches x (ownerOf O p caches x) := by
  have taken := taken_controlling (Resource.key x) (Resource.kind O) (references O x)
  unfold ownerOf
  unfold Resource.key references at taken
  dsimp only
  generalize controlling _ _ _ = taken_ at taken
  cases taken with
  | nobody none_ => exact .nobody none_
  | ambiguous several => exact .ambiguous several
  | somebody counts =>
    dsimp only
    split
    · rename_i nameless
      exact .malformed counts (String.isEmpty_iff.mp nameless)
    · rename_i r named
      have named : r.name ≠ "" := fun e => named (String.isEmpty_iff.mpr e)
      split
      · rename_i missing
        refine .missed counts named fun ⟨owner, cached, _⟩ => ?_
        rw [missing] at cached
        cases cached
      · rename_i owner cached
        split
        · rename_i fits
          obtain ⟨means, kept⟩ := Bool.and_eq_true_iff.mp fits
          exact .found counts named ⟨owner, cached, OwnerReference.means_iff.mp means, kept⟩
        · rename_i unfit
          refine .missed counts named fun ⟨owner', cached', means, kept⟩ => unfit ?_
          obtain rfl := Option.some.inj (cached.symm.trans cached')
          exact Bool.and_eq_true_iff.mpr ⟨OwnerReference.means_iff.mpr means, kept⟩

/-- The reasons exclude one another. -/
theorem Resolved.unique (h : Resolved O p caches x mapped) (h' : Resolved O p caches x mapped') :
    mapped = mapped' := by
  have counted {r r' : OwnerReference} (counts : Counts (references O x) r)
      (counts' : Counts (references O x) r') : r = r' := counts.unique counts'
  have unambiguous {r : OwnerReference} (counts : Counts (references O x) r) :
      ¬ Ambiguous (references O x) := counts.not_ambiguous
  have somebody {r : OwnerReference} (counts : Counts (references O x) r) :
      references O x ≠ [] := List.ne_nil_of_mem counts.mem
  have deserted : references O x = [] → ¬ Ambiguous (references O x) :=
    fun none_ => none_ ▸ not_ambiguous_nil
  cases h <;> cases h' <;> grind

/-- **The reason tells what a dependent is mapped to.** -/
theorem ownerOf_eq_iff : ownerOf O p caches x = mapped ↔ Resolved O p caches x mapped :=
  ⟨fun h => h ▸ resolved_ownerOf O p caches x, (resolved_ownerOf O p caches x).unique⟩

theorem ownerOf_eq_error_iff {err : MappingError} : ownerOf O p caches x = .error err ↔
    err = .ambiguousOwner (Resource.key x) (Resource.kind O) (references O x).length ∧
        Ambiguous (references O x) ∨
      err = .malformedOwner (Resource.key x)
          ((Resource.kind O).name ++ " owner reference has an empty name") ∧
        ∃ r, Counts (references O x) r ∧ r.name = "" := by
  rw [ownerOf_eq_iff]
  constructor
  · intro resolved
    cases resolved with
    | ambiguous several => exact .inl ⟨rfl, several⟩
    | malformed counts nameless => exact .inr ⟨rfl, _, counts, nameless⟩
  · rintro (⟨rfl, several⟩ | ⟨rfl, r, counts, nameless⟩)
    · exact .ambiguous several
    · exact .malformed counts nameless

theorem ownerOf_eq_single_iff {k : Key} : ownerOf O p caches x = .ok (OrderedSet.single k) ↔
    ∃ r, Counts (references O x) r ∧ r.name ≠ "" ∧ k = ⟨(Resource.metadata x).ns, r.name⟩ ∧
      Finds O p caches x r := by
  rw [ownerOf_eq_iff]
  constructor
  · intro resolved
    generalize he : Except.ok (OrderedSet.single k) = mapped at resolved
    cases resolved with
    | nobody | missed => exact absurd (Except.ok.inj he) OrderedSet.single_ne_empty
    | ambiguous | malformed => cases he
    | found counts named finds =>
      exact ⟨_, counts, named, OrderedSet.single_inj (Except.ok.inj he), finds⟩
  · rintro ⟨r, counts, named, rfl, finds⟩
    exact .found counts named finds

theorem ownerOf_eq_empty_iff : ownerOf O p caches x = .ok ∅ ↔
    ¬ Ambiguous (references O x) ∧
      ∀ r, Counts (references O x) r → r.name ≠ "" ∧ ¬ Finds O p caches x r := by
  rw [ownerOf_eq_iff]
  constructor
  · intro resolved
    generalize he : Except.ok (∅ : OrderedSet Key) = mapped at resolved
    cases resolved with
    | nobody none_ =>
      rw [none_]
      exact ⟨not_ambiguous_nil, fun r counts => absurd counts.mem List.not_mem_nil⟩
    | missed counts named lost =>
      refine ⟨counts.not_ambiguous, fun r counts' => ?_⟩
      obtain rfl := counts.unique counts'
      exact ⟨named, lost⟩
    | ambiguous | malformed => cases he
    | found => exact absurd (Except.ok.inj he).symm OrderedSet.single_ne_empty
  · rintro ⟨unambiguous, lost⟩
    rcases nobody_or_counts unambiguous with none_ | ⟨r, counts⟩
    · exact .nobody none_
    · exact .missed counts (lost r counts).1 (lost r counts).2

/-- A dependent is mapped to one key, to none, or not at all. -/
theorem Resolved.outcomes (h : Resolved O p caches x mapped) :
    (∃ k, mapped = .ok (OrderedSet.single k)) ∨ mapped = .ok ∅ ∨ ∃ e, mapped = .error e := by
  cases h with
  | nobody | missed => exact .inr (.inl rfl)
  | ambiguous | malformed => exact .inr (.inr ⟨_, rfl⟩)
  | found => exact .inl ⟨_, rfl⟩

/-- If a dependent cannot be mapped, every reference is one of several or without a name. -/
theorem several_or_nameless {err : MappingError} (failed : ownerOf O p caches x = .error err)
    {r : OwnerReference} (mem : r ∈ references O x) :
    2 ≤ (references O x).length ∨ r.name = "" := by
  rcases ownerOf_eq_error_iff.mp failed with ⟨-, several⟩ | ⟨-, r', counts, nameless⟩
  · exact .inl several.1
  · rcases counts.others mem with rfl | ⟨several, -⟩
    · exact .inr nameless
    · exact .inl several

/-- There is at most one key, and it is that of a cached owner in the object's namespace. -/
theorem of_ownerOf_eq_ok {ks : OrderedSet Key} (h : ownerOf O p caches x = .ok ks) :
    OrderedMap.size ks ≤ 1 ∧ ∀ k ∈ ks, k.ns = (Resource.metadata x).ns ∧
      ∃ owner : O, (Cached.store caches).get? k = some owner := by
  have resolved := ownerOf_eq_iff.mp h
  generalize he : Except.ok ks = mapped at resolved
  cases resolved with
  | nobody | missed =>
    obtain rfl := Except.ok.inj he
    exact ⟨Nat.zero_le 1, fun k mem => absurd mem OrderedSet.not_mem_empty⟩
  | ambiguous | malformed => cases he
  | found counts named finds =>
    obtain rfl := Except.ok.inj he
    obtain ⟨owner, cached, -⟩ := finds
    refine ⟨Nat.le_refl 1, fun k mem => ?_⟩
    obtain rfl := OrderedSet.mem_single.mp mem
    exact ⟨rfl, owner, cached⟩

end

/-! ### What is mapped for an event -/

variable {S : Type} {mapping : Mapping S} {caches : Caches} {k : Key}

/-- Whether an object is mapped to a key, among others. -/
def Yields (mapping : Mapping S) (caches : Caches) (x : S) (k : Key) : Prop :=
  ∃ ks, mapping caches x = .ok ks ∧ k ∈ ks

def Fails (mapping : Mapping S) (caches : Caches) (x : S) : Prop :=
  ∃ err, mapping caches x = .error err

theorem fails_or_maps (mapping : Mapping S) (caches : Caches) (x : S) :
    mapping.Fails caches x ∨ ∃ ks, mapping caches x = .ok ks := by
  unfold Fails
  cases mapping caches x with
  | error err => exact .inl ⟨err, rfl⟩
  | ok ks => exact .inr ⟨ks, rfl⟩

theorem not_fails_iff {x : S} : ¬ mapping.Fails caches x ↔ ∃ ks, mapping caches x = .ok ks := by
  refine ⟨(mapping.fails_or_maps caches x).resolve_left, ?_⟩
  rintro ⟨ks, mapped⟩ ⟨err, failed⟩
  rw [mapped] at failed
  cases failed

/-- All keys that the objects of a list are mapped to, up to the first that cannot be mapped. -/
def gather (mapping : Mapping S) (caches : Caches) :
    List S → Except MappingError (OrderedSet Key)
  | [] => .ok ∅
  | x :: rest =>
    match mapping caches x with
    | .error err => .error err
    | .ok ks =>
      match gather mapping caches rest with
      | .error err => .error err
      | .ok ks' => .ok (OrderedSet.union ks ks')

/-- What comes of mapping the objects of a list: the first failure, or all keys. -/
inductive Gathered (mapping : Mapping S) (caches : Caches) (xs : List S) :
    Except MappingError (OrderedSet Key) → Prop
  | failed (done : List S) {rest : List S} {x : S} {err : MappingError}
      (split : xs = done ++ x :: rest) (before : ∀ y ∈ done, ¬ mapping.Fails caches y)
      (here : mapping caches x = .error err) :
      Gathered mapping caches xs (.error err)
  | whole {ks : OrderedSet Key} (all : ∀ x ∈ xs, ¬ mapping.Fails caches x)
      (mem : ∀ k, k ∈ ks ↔ ∃ x ∈ xs, mapping.Yields caches x k) :
      Gathered mapping caches xs (.ok ks)

theorem gathered_gather (mapping : Mapping S) (caches : Caches) (xs : List S) :
    Gathered mapping caches xs (gather mapping caches xs) := by
  induction xs with
  | nil =>
    refine .whole (fun _ h => absurd h List.not_mem_nil) fun k => ?_
    exact iff_of_false OrderedSet.not_mem_empty fun ⟨_, h, _⟩ => List.not_mem_nil h
  | cons x rest ih =>
    simp only [gather]
    cases here : mapping caches x with
    | error err => exact .failed [] rfl (fun _ h => absurd h List.not_mem_nil) here
    | ok ks =>
      have maps : ¬ mapping.Fails caches x := not_fails_iff.mpr ⟨ks, here⟩
      have yields (k : Key) : mapping.Yields caches x k ↔ k ∈ ks := by
        refine ⟨?_, fun mem => ⟨ks, here, mem⟩⟩
        rintro ⟨ks', mapped, mem⟩
        exact Except.ok.inj (here.symm.trans mapped) ▸ mem
      generalize gather mapping caches rest = later at ih
      cases ih with
      | failed done split before there =>
        refine .failed (x :: done) (congrArg (x :: ·) split) ?_ there
        exact List.forall_mem_cons.mpr ⟨maps, before⟩
      | whole all mem =>
        refine .whole (List.forall_mem_cons.mpr ⟨maps, all⟩) fun k => ?_
        rw [OrderedSet.mem_union, mem, ← yields, List.exists_mem_cons_iff]

variable {xs : List S}

/-- Gathering fails if one of the objects cannot be mapped, as that one does. -/
theorem Gathered.fails_iff {mapped : Except MappingError (OrderedSet Key)}
    (h : Gathered mapping caches xs mapped) :
    (∃ err, mapped = .error err) ↔ ∃ x ∈ xs, mapping.Fails caches x := by
  cases h with
  | @failed done rest x err split before here =>
    exact iff_of_true ⟨err, rfl⟩
      ⟨x, split ▸ List.mem_append_right _ (List.mem_cons_self ..), _, here⟩
  | whole all mem =>
    refine iff_of_false ?_ fun ⟨x, hx, fails⟩ => all x hx fails
    rintro ⟨err, failed⟩
    cases failed

theorem Gathered.mem_iff {ks : OrderedSet Key} (h : Gathered mapping caches xs (.ok ks)) (k : Key) :
    k ∈ ks ↔ ∃ x ∈ xs, mapping.Yields caches x k := by
  cases h with | whole all mem
  exact mem k

end Mapping

/-- The objects of an event that a handler maps: the new one, and the old one if both count. -/
def MapMode.sides {S : Type} (e : Event S) : MapMode → List S
  | .new => [e.object]
  | .both => e.object :: e.old?.toList

namespace Handler

variable {S : Type} [Resource S] {caches : Caches} {e : Event S}

theorem keys_mapped (mapping : Mapping S) (mode : MapMode) :
    (mapped mapping mode).keys caches e = mapping.gather caches (mode.sides e) := by
  have alone (x : S) : mapping.gather caches [x] = mapping caches x := by
    simp only [Mapping.gather]
    cases mapping caches x <;> rfl
  cases mode with
  | new =>
    rw [MapMode.sides, alone]
    simp only [keys]
    cases mapping caches e.object <;> rfl
  | both =>
    cases old : e.old? with
    | none =>
      rw [MapMode.sides, old, Option.toList_none, alone]
      simp only [keys, old]
      cases mapping caches e.object <;> rfl
    | some before =>
      rw [MapMode.sides, old, Option.toList_some, Mapping.gather, alone]
      cases first : mapping caches e.object <;> cases second : mapping caches before <;>
        simp only [keys, first, second, old]

/-- Whether a mapping that an event needs fails. -/
def Fails (caches : Caches) (e : Event S) : Handler S → Prop
  | self => False
  | mapped mapping mode => ∃ x ∈ mode.sides e, mapping.Fails caches x

/-- Whether an event triggers a key. -/
def Triggers (caches : Caches) (e : Event S) (k : Key) : Handler S → Prop
  | self => k = e.key
  | mapped mapping mode => ∃ x ∈ mode.sides e, mapping.Yields caches x k

/-- Unless a mapping fails, there are the keys that the event triggers. -/
theorem fails_or_keys (h : Handler S) (caches : Caches) (e : Event S) :
    h.Fails caches e ∧ (∃ err, h.keys caches e = .error err) ∨
      ¬ h.Fails caches e ∧
        ∃ ks, h.keys caches e = .ok ks ∧ ∀ k, k ∈ ks ↔ h.Triggers caches e k := by
  cases h with
  | self => exact .inr ⟨id, _, rfl, fun k => OrderedSet.mem_single⟩
  | mapped mapping mode =>
    have gathered := mapping.gathered_gather caches (mode.sides e)
    rw [← keys_mapped] at gathered
    have fails := gathered.fails_iff
    cases hk : (mapped mapping mode).keys caches e with
    | error err => exact .inl ⟨fails.mp ⟨err, hk⟩, err, rfl⟩
    | ok ks =>
      refine .inr ⟨fun failed => ?_, ks, rfl, fun k => (hk ▸ gathered).mem_iff k⟩
      obtain ⟨err, failed⟩ := fails.mpr failed
      rw [hk] at failed
      cases failed

theorem not_fails_of_keys {h : Handler S} {ks : OrderedSet Key}
    (mapped : h.keys caches e = .ok ks) :
    ¬ h.Fails caches e := by
  rcases h.fails_or_keys caches e with ⟨-, err, failed⟩ | ⟨maps, -⟩
  · cases mapped.symm.trans failed
  · exact maps

end Handler

/-! ### Owners and handlers -/

/-- **A dependent is mapped to the owner that its reference finds.** It is refused as ambiguous if
there are several references of which not exactly one is controlling, and else as malformed if
the reference that counts has no name. Else it is mapped to the one key that this reference finds,
or to none. A handler gives what the objects that it maps are mapped to, unless one of them cannot
be mapped. -/
theorem resolves_owner {S : Type} [Resource S] (O : Type) [Cached O] (p : Predicate)
    (caches : Caches) (x : S) :
    let m := Resource.metadata x
    let kind := Resource.kind O
    let refs := m.ownersOfKind kind.name
    let owners : Store O := Cached.store caches
    let mapped := Mapping.ownerOf O p caches x
    (∀ err, mapped = .error err ↔
      err = .ambiguousOwner m.key kind refs.length ∧
          2 ≤ refs.length ∧ refs.countP (·.controller) ≠ 1 ∨
        err = .malformedOwner m.key (kind.name ++ " owner reference has an empty name") ∧
          ∃ r, Mapping.Counts refs r ∧ r.name = "") ∧
      (∀ k, mapped = .ok (OrderedSet.single k) ↔
        ∃ r, Mapping.Counts refs r ∧ r.name ≠ "" ∧ k = ⟨m.ns, r.name⟩ ∧
          ∃ owner, owners.get? k = some owner ∧
            (∀ u, r.uid = some u → u = (Resource.metadata owner).uid) ∧
            p.keeps caches.clusters (.generic owner) = true) ∧
      (mapped = .ok ∅ ↔
        ¬ (2 ≤ refs.length ∧ refs.countP (·.controller) ≠ 1) ∧
          ∀ r, Mapping.Counts refs r → r.name ≠ "" ∧
            ¬ ∃ owner, owners.get? ⟨m.ns, r.name⟩ = some owner ∧
              (∀ u, r.uid = some u → u = (Resource.metadata owner).uid) ∧
              p.keeps caches.clusters (.generic owner) = true) ∧
      (∀ ks, mapped = .ok ks → OrderedMap.size ks ≤ 1 ∧
        ∀ k ∈ ks, k.ns = m.ns ∧ ∃ owner, owners.get? k = some owner) ∧
      ∀ (mapping : Mapping S) (mode : MapMode) (e : Event S),
        let keys := (Handler.mapped mapping mode).keys caches e
        ((∃ err, keys = .error err) ↔ ∃ y ∈ mode.sides e, ∃ err, mapping caches y = .error err) ∧
          ∀ ks, keys = .ok ks → ∀ k, k ∈ ks ↔
            ∃ y ∈ mode.sides e, ∃ ks', mapping caches y = .ok ks' ∧ k ∈ ks' := by
  intro m kind refs owners mapped
  refine ⟨fun err => Mapping.ownerOf_eq_error_iff, fun k => Mapping.ownerOf_eq_single_iff.trans ?_,
    Mapping.ownerOf_eq_empty_iff, fun ks => Mapping.of_ownerOf_eq_ok, fun mapping mode e => ?_⟩
  · refine exists_congr fun r => and_congr_right fun _ => and_congr_right fun _ => ?_
    exact and_congr_right fun key => key ▸ Iff.rfl
  · have gathered := mapping.gathered_gather caches (mode.sides e)
    rw [← Handler.keys_mapped] at gathered
    exact ⟨gathered.fails_iff, fun ks hk => (hk ▸ gathered).mem_iff⟩

/-- A machine goes over from one worker to another, to which it had a plain reference before. It is
mapped to either in turn, and a handler of both sides gives both. -/
theorem resolves_owner_handed_over :
    let a := Trial.Fixture.worker "tenant" "a" default
    let b := Trial.Fixture.worker "tenant" "b" default
    let refer (owners : List OwnerReference) : Machine :=
      Resource.mapMetadata (fun m => { m with owners })
        (Trial.Fixture.machine a "set" "machine" default .ready none)
    let before := refer [{ Resource.controllerReference b with controller := false },
      Resource.controllerReference a]
    let after := refer [Resource.controllerReference b]
    let caches : Caches := { (default : Caches) with workers := (Store.put ∅ a).put b }
    let mapping : Mapping Machine := Mapping.ownerOf Worker .always
    mapping caches before = .ok (OrderedSet.single a.key) ∧
      (∀ k ∈ OrderedSet.single a.key, k.ns = "tenant" ∧
        ∃ owner, caches.workers.get? k = some owner) ∧
      ∃ ks, (Handler.mapped mapping .both).keys caches (.updated before after) = .ok ks ∧
        a.key ∈ ks ∧ b.key ∈ ks := by
  intro a b refer before after caches mapping
  have first : mapping caches before = .ok (OrderedSet.single a.key) := by decide
  have second : mapping caches after = .ok (OrderedSet.single b.key) := by decide
  obtain ⟨-, -, -, found, handled⟩ := resolves_owner Worker .always caches before
  obtain ⟨fails, keys⟩ := handled mapping .both (.updated before after)
  refine ⟨first, (found _ first).2, ?_⟩
  cases hk : (Handler.mapped mapping .both).keys caches (.updated before after) with
  | error err =>
    obtain ⟨y, side, err, failed⟩ := fails.mp ⟨err, hk⟩
    rcases List.mem_cons.mp side with rfl | side
    · cases second.symm.trans failed
    · obtain rfl := List.mem_singleton.mp side
      cases first.symm.trans failed
  | ok ks =>
    have here (k : Key) := keys ks hk k
    refine ⟨ks, rfl, (here _).mpr ⟨before, ?_, _, first, OrderedSet.mem_single.mpr rfl⟩,
      (here _).mpr ⟨after, List.mem_cons_self .., _, second, OrderedSet.mem_single.mpr rfl⟩⟩
    exact List.mem_cons_of_mem _ (List.mem_singleton_self _)

end PoolControl
