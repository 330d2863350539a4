import Mathlib.Data.List.DropRight
import PoolControl.Store
import PoolControl.Trial.Fixture

/-! What is found in a store.

Lookups see only the objects of a store, never its index: `get?_put` and `get?_remove` say
what a lookup finds after an object came or went, and `get?_apply` the same for an event. After
any list of events the last one of a key decides (`get?_replay`).

The index follows the objects. `Indexed` says that under every owner there are exactly the
stored objects that refer to it, and that no entry is empty. Every event keeps that, so a store
that was made by events is known by its lookups alone (`Indexed.ext`), and looking up an owner
finds what a scan of all objects would (`Indexed.ownedBy_eq`). It also follows that nobody can
tell how often an event was delivered, or in which order events of different keys came:
`cache_faithful` puts together what is known of a store that any events made. -/
namespace PoolControl

/-- What an event leaves in a store under its key. -/
def Event.left? {K : Type} : Event K → Option K
  | .deleted _ => none
  | e => some e.object

theorem Event.left?_eq {K : Type} (e : Event K) :
    e.left? = if e.kind = .deleted then none else some e.object := by
  cases e <;> rfl

/-- What an event leaves is its object. -/
theorem Event.object_of_left? {K : Type} {e : Event K} {x : K} (h : e.left? = some x) :
    e.object = x := by
  cases e with
  | deleted y => cases h
  | _ => exact Option.some.inj h

/-- Whether an object refers to an owner: it is of the same namespace and names the owner. -/
def Metadata.RefersTo (m : Metadata) (o : OwnerKey) : Prop :=
  m.ns = o.key.ns ∧ ∃ r ∈ m.owners, r.kind = o.kind ∧ r.name = o.key.name

instance (m : Metadata) (o : OwnerKey) : Decidable (m.RefersTo o) :=
  inferInstanceAs (Decidable (_ ∧ ∃ r ∈ m.owners, _))

theorem Metadata.mem_ownerKeys {m : Metadata} {o : OwnerKey} :
    o ∈ m.ownerKeys ↔ m.RefersTo o := by
  simp only [Metadata.ownerKeys, List.mem_map]
  constructor
  · rintro ⟨r, hr, rfl⟩
    exact ⟨rfl, r, hr, rfl, rfl⟩
  · rintro ⟨ns, r, hr, kind, name⟩
    exact ⟨r, hr, by rw [kind, name, ns]⟩

namespace Store

variable {K : Type} [Resource K]

theorem get?_remove (s : Store K) (k k' : Key) :
    (s.remove k).get? k' = if k' = k then none else s.get? k' := by
  unfold remove
  split
  · rename_i missing
    by_cases h : k' = k
    · rw [if_pos h, h]
      exact missing
    · rw [if_neg h]
  · exact OrderedMap.get?_erase s.objects k k'

theorem get?_put (s : Store K) (x : K) (k' : Key) :
    (s.put x).get? k' = if k' = Resource.key x then some x else s.get? k' := by
  show ((s.remove (Resource.key x)).objects.insert (Resource.key x) x).get? k' = _
  rw [OrderedMap.get?_insert]
  by_cases h : k' = Resource.key x
  · rw [if_pos h, if_pos h]
  · rw [if_neg h, if_neg h]
    exact (get?_remove s _ k').trans (if_neg h)

/-- An event settles what is found under its key, and nothing else. -/
theorem get?_apply (s : Store K) (e : Event K) (k' : Key) :
    (s.apply e).get? k' = if k' = e.key then e.left? else s.get? k' := by
  cases e with
  | created x => exact get?_put s x k'
  | updated _ x => exact get?_put s x k'
  | generic x => exact get?_put s x k'
  | deleted x => exact get?_remove s (Resource.key x) k'

/-! ### Replaying events -/

/-- The store that events make of an empty one. -/
def replay (es : List (Event K)) : Store K := es.foldl apply ∅

theorem replay_append (es es' : List (Event K)) :
    replay (es ++ es') = es'.foldl apply (replay es) :=
  List.foldl_append

/-- The last event of a key settles what is found under it. -/
theorem get?_replay (es : List (Event K)) (k : Key) :
    (replay es).get? k = (es.filter (·.key = k)).getLast?.bind Event.left? := by
  induction es using List.reverseRecOn with
  | nil => rfl
  | append_singleton es e ih =>
    rw [replay_append, List.foldl_cons, List.foldl_nil, get?_apply, ih, List.filter_append]
    by_cases h : e.key = k
    · have own : [e].filter (·.key = k) = [e] := List.filter_cons_of_pos (decide_eq_true h)
      rw [if_pos h.symm, own, List.getLast?_concat]
      rfl
    · have other : [e].filter (·.key = k) = [] :=
        List.filter_cons_of_neg fun he => h (of_decide_eq_true he)
      rw [if_neg (Ne.symm h), other, List.append_nil]

end Store

/-! ### Entering and leaving the index -/

namespace OwnerIndex

variable {ix ix' : OwnerIndex} {k k' : Key} {o o' : OwnerKey}

/-- Whether a key stands under an owner. -/
def Holds (ix : OwnerIndex) (o : OwnerKey) (k : Key) : Prop := k ∈ OrderedMap.getD ix o ∅

/-- No entry is empty. -/
def Occupied (ix : OwnerIndex) : Prop :=
  ∀ o keys, OrderedMap.get? ix o = some keys → ∃ k, k ∈ keys

theorem holds_of_get? {keys : OrderedSet Key} (h : OrderedMap.get? ix o = some keys) :
    ix.Holds o k ↔ k ∈ keys := by
  rw [Holds, OrderedMap.getD, h]
  rfl

theorem not_holds_of_get? (h : OrderedMap.get? ix o = none) : ¬ ix.Holds o k := by
  rw [Holds, OrderedMap.getD, h]
  exact Bool.false_ne_true

theorem holds_enter : (enter k ix o).Holds o' k' ↔ o' = o ∧ k' = k ∨ ix.Holds o' k' := by
  rw [Holds, OrderedMap.getD, enter, OrderedMap.get?_insert]
  by_cases h : o' = o
  · subst h
    rw [if_pos rfl]
    exact OrderedSet.mem_add.trans (or_congr (and_iff_right rfl).symm Iff.rfl)
  · rw [if_neg h]
    exact (or_iff_right fun e => h e.1).symm

theorem Occupied.enter (h : ix.Occupied) : (OwnerIndex.enter k ix o).Occupied := by
  intro o' keys found
  rw [OwnerIndex.enter, OrderedMap.get?_insert] at found
  split at found
  · obtain rfl := Option.some.inj found
    exact ⟨k, OrderedSet.mem_add.mpr (.inl rfl)⟩
  · exact h o' keys found

/-- What leaving makes of an entry: it loses the key, and goes if it has no other. -/
theorem leave_cases (k : Key) (ix : OwnerIndex) (o : OwnerKey) :
    OrderedMap.get? ix o = none ∧ leave k ix o = ix ∨
      ∃ keys, OrderedMap.get? ix o = some keys ∧
        ((∀ k', k' ∉ OrderedMap.erase keys k) ∧ leave k ix o = OrderedMap.erase ix o ∨
          (∃ k', k' ∈ OrderedMap.erase keys k) ∧
            leave k ix o = OrderedMap.insert ix o (OrderedMap.erase keys k)) := by
  unfold leave
  split
  · rename_i missing
    exact .inl ⟨missing, rfl⟩
  · rename_i keys found
    refine .inr ⟨keys, found, ?_⟩
    dsimp only
    generalize OrderedMap.erase keys k = rest
    split
    · rename_i empty
      refine .inl ⟨fun k' h => ?_, rfl⟩
      rw [← OrderedSet.mem_elements, OrderedSet.elements, OrderedMap.keys,
        List.isEmpty_iff.mp empty] at h
      cases h
    · rename_i left
      obtain ⟨b, hb⟩ := List.exists_mem_of_ne_nil _ fun e => left (List.isEmpty_iff.mpr e)
      exact .inr ⟨⟨b.1, OrderedSet.mem_elements.mp (List.mem_map_of_mem hb)⟩, rfl⟩

theorem holds_leave : (leave k ix o).Holds o' k' ↔ ix.Holds o' k' ∧ ¬ (o' = o ∧ k' = k) := by
  by_cases h : o' = o
  · subst h
    rcases leave_cases k ix o' with ⟨missing, he⟩ | ⟨keys, found, he⟩
    · rw [he]
      exact iff_of_false (not_holds_of_get? missing) fun e => not_holds_of_get? missing e.1
    · have erased : k' ∈ OrderedMap.erase keys k ↔ ix.Holds o' k' ∧ ¬ (o' = o' ∧ k' = k) := by
        rw [OrderedSet.mem_erase, holds_of_get? found, and_comm]
        exact and_congr_right fun _ => not_congr (and_iff_right rfl).symm
      rcases he with ⟨empty, he⟩ | ⟨-, he⟩
      · refine iff_of_false (not_holds_of_get? ?_) fun e => empty k' (erased.mpr e)
        rw [he, OrderedMap.get?_erase, if_pos rfl]
      · refine (holds_of_get? ?_).trans erased
        rw [he, OrderedMap.get?_insert, if_pos rfl]
  · have same : OrderedMap.get? (leave k ix o) o' = OrderedMap.get? ix o' := by
      rcases leave_cases k ix o with ⟨-, he⟩ | ⟨keys, -, ⟨-, he⟩ | ⟨-, he⟩⟩
      · rw [he]
      · rw [he, OrderedMap.get?_erase, if_neg h]
      · rw [he, OrderedMap.get?_insert, if_neg h]
    rw [Holds, OrderedMap.getD, same]
    exact (and_iff_left fun e => h e.1).symm

theorem Occupied.leave (h : ix.Occupied) : (OwnerIndex.leave k ix o).Occupied := by
  intro o' keys' found'
  rcases leave_cases k ix o with ⟨-, he⟩ | ⟨keys, -, ⟨-, he⟩ | ⟨left, he⟩⟩
  · rw [he] at found'
    exact h o' keys' found'
  · rw [he, OrderedMap.get?_erase] at found'
    split at found'
    · cases found'
    · exact h o' keys' found'
  · rw [he, OrderedMap.get?_insert] at found'
    split at found'
    · obtain rfl := Option.some.inj found'
      exact left
    · exact h o' keys' found'

theorem holds_foldl_enter (os : List OwnerKey) :
    (os.foldl (enter k) ix).Holds o' k' ↔ o' ∈ os ∧ k' = k ∨ ix.Holds o' k' := by
  induction os generalizing ix with
  | nil => exact (or_iff_right fun e => List.not_mem_nil e.1).symm
  | cons o os ih =>
    rw [List.foldl_cons, ih, holds_enter, List.mem_cons, or_and_right, or_assoc, or_left_comm]

theorem holds_foldl_leave (os : List OwnerKey) :
    (os.foldl (leave k) ix).Holds o' k' ↔ ix.Holds o' k' ∧ ¬ (o' ∈ os ∧ k' = k) := by
  induction os generalizing ix with
  | nil => exact (and_iff_left fun e => List.not_mem_nil e.1).symm
  | cons o os ih =>
    rw [List.foldl_cons, ih, holds_leave, List.mem_cons, or_and_right, not_or, and_assoc]

theorem Occupied.foldl {f : OwnerIndex → OwnerKey → OwnerIndex}
    (hf : ∀ ix o, Occupied ix → (f ix o).Occupied) (h : ix.Occupied) (os : List OwnerKey) :
    (os.foldl f ix).Occupied := by
  induction os generalizing ix with
  | nil => exact h
  | cons o os ih => exact ih (hf ix o h)

/-- Indices without empty entries are equal if they hold the same. -/
theorem Occupied.ext (h : ix.Occupied) (h' : ix'.Occupied)
    (same : ∀ o k, ix.Holds o k ↔ ix'.Holds o k) : ix = ix' := by
  refine OrderedMap.ext_get? fun o => ?_
  cases found : OrderedMap.get? ix o with
  | none =>
    cases found' : OrderedMap.get? ix' o with
    | none => rfl
    | some keys' =>
      obtain ⟨k, hk⟩ := h' o keys' found'
      exact absurd ((same o k).mpr ((holds_of_get? found').mpr hk)) (not_holds_of_get? found)
  | some keys =>
    cases found' : OrderedMap.get? ix' o with
    | none =>
      obtain ⟨k, hk⟩ := h o keys found
      exact absurd ((same o k).mp ((holds_of_get? found).mpr hk)) (not_holds_of_get? found')
    | some keys' =>
      refine congrArg some (OrderedSet.ext_mem fun k => ?_)
      rw [← holds_of_get? found, ← holds_of_get? found']
      exact same o k

end OwnerIndex

/-! ### The index of a store -/

namespace Store

variable {K : Type} [Resource K] {s s' : Store K}

/-- Every object stands under its own key and, in the index, under the owners it refers to. -/
structure Indexed (s : Store K) : Prop where
  keyed : ∀ k x, s.get? k = some x → Resource.key x = k
  holds : ∀ o k, s.owned.Holds o k ↔ ∃ x, s.get? k = some x ∧ o ∈ (Resource.metadata x).ownerKeys
  occupied : s.owned.Occupied

theorem indexed_empty : (∅ : Store K).Indexed where
  keyed _ _ h := by cases h
  holds _ _ := iff_of_false Bool.false_ne_true fun ⟨_, h, _⟩ => by cases h
  occupied _ _ h := by cases h

theorem Indexed.remove (h : s.Indexed) (k : Key) : (s.remove k).Indexed := by
  refine ⟨fun k' x found => ?_, fun o k' => ?_, ?_⟩
  · rw [get?_remove] at found
    split at found
    · cases found
    · exact h.keyed k' x found
  · cases stored : s.get? k with
    | none =>
      have same : s.remove k = s := by simp only [Store.remove, stored]
      rw [same]
      exact h.holds o k'
    | some y =>
      have owned : (s.remove k).owned =
          (Resource.metadata y).ownerKeys.foldl (OwnerIndex.leave k) s.owned := by
        simp only [Store.remove, stored]
      rw [owned, OwnerIndex.holds_foldl_leave, h.holds, get?_remove]
      by_cases hk : k' = k
      · subst hk
        simp only [stored, Option.some.injEq, exists_eq_left', if_pos, and_true, and_not_self,
          reduceCtorEq, false_and, exists_false]
      · rw [if_neg hk]
        exact and_iff_left fun e => hk e.2
  · unfold Store.remove
    split
    · exact h.occupied
    · exact h.occupied.foldl (fun _ _ => OwnerIndex.Occupied.leave) _

theorem Indexed.put (h : s.Indexed) (x : K) : (s.put x).Indexed := by
  have removed := h.remove (Resource.key x)
  refine ⟨fun k y found => ?_, fun o k => ?_, ?_⟩
  · rw [get?_put] at found
    split at found
    · rename_i hk
      rw [← Option.some.inj found, hk]
    · exact h.keyed k y found
  · show ((Resource.metadata x).ownerKeys.foldl (OwnerIndex.enter (Resource.key x))
      (s.remove (Resource.key x)).owned).Holds o k ↔ _
    rw [OwnerIndex.holds_foldl_enter, removed.holds, get?_remove, get?_put]
    by_cases hk : k = Resource.key x
    · simp only [hk, if_pos, and_true, reduceCtorEq, false_and, exists_false, or_false,
        Option.some.injEq, exists_eq_left']
    · rw [if_neg hk, if_neg hk]
      exact or_iff_right fun e => hk e.2
  · exact removed.occupied.foldl (fun _ _ => OwnerIndex.Occupied.enter) _

/-- **Every event keeps the index in step with the objects.** -/
theorem Indexed.apply (h : s.Indexed) (e : Event K) : (s.apply e).Indexed := by
  cases e with
  | created x => exact h.put x
  | updated _ x => exact h.put x
  | generic x => exact h.put x
  | deleted x => exact h.remove _

theorem Indexed.foldl (h : s.Indexed) (es : List (Event K)) : (es.foldl Store.apply s).Indexed := by
  induction es generalizing s with
  | nil => exact h
  | cons e es ih => exact ih (h.apply e)

theorem indexed_replay (es : List (Event K)) : (replay es).Indexed := indexed_empty.foldl es

/-- **Lookups determine a store.** -/
theorem Indexed.ext (h : s.Indexed) (h' : s'.Indexed) (same : ∀ k, s.get? k = s'.get? k) :
    s = s' := by
  have objects : s.objects = s'.objects := OrderedMap.ext_get? same
  have owned : s.owned = s'.owned := h.occupied.ext h'.occupied fun o k => by
    rw [h.holds, h'.holds, same]
  cases s
  cases s'
  exact congrArg₂ Store.mk objects owned

theorem Indexed.mem_list (h : s.Indexed) {x : K} :
    x ∈ s.list ↔ s.get? (Resource.key x) = some x := by
  refine OrderedMap.mem_values.trans ⟨?_, fun found => ⟨_, found⟩⟩
  rintro ⟨k, found⟩
  rw [h.keyed k x found]
  exact found

/-- An object that is stored is told again. -/
theorem Indexed.apply_generic (h : s.Indexed) {x : K} (found : s.get? (Resource.key x) = some x) :
    s.apply (.generic x) = s := by
  refine (h.apply _).ext h fun k => ?_
  rw [get?_apply]
  split
  · rename_i hk
    rw [hk]
    exact found.symm
  · rfl

/-- **The objects of an owner are those that a scan finds.** -/
theorem Indexed.ownedBy_eq (h : s.Indexed) (o : OwnerKey) :
    s.ownedBy o = s.list.filter fun x => decide (o ∈ (Resource.metadata x).ownerKeys) := by
  rw [list, OrderedMap.values, ← List.filterMap_eq_filter, List.filterMap_map, ownedBy,
    OrderedSet.elements, OrderedMap.keys, List.filterMap_map]
  refine OrderedMap.filterMap_congr fun k => Option.ext fun x => ?_
  have held : (OrderedMap.get? (OrderedMap.getD s.owned o ∅) k) = some () ↔
      ∃ y, s.get? k = some y ∧ o ∈ (Resource.metadata y).ownerKeys :=
    OrderedSet.mem_iff_get?.symm.trans (h.holds o k)
  simp only [Option.bind_eq_some_iff, Function.comp_def, Option.guard_eq_some_iff,
    decide_eq_true_eq]
  constructor
  · rintro ⟨⟨⟩, entered, found⟩
    obtain ⟨y, found', refers⟩ := held.mp entered
    obtain rfl := Option.some.inj (found'.symm.trans found)
    exact ⟨y, found, rfl, refers⟩
  · rintro ⟨y, found, rfl, refers⟩
    exact ⟨(), held.mpr ⟨y, found, refers⟩, found⟩

/-! ### What events make of a store -/

/-- **Objects are listed in key order.** -/
theorem Indexed.increasing (h : s.Indexed) :
    s.list.Pairwise fun x y => compare (Resource.key x) (Resource.key y) = .lt := by
  refine List.pairwise_map.mpr (s.objects.increasing.imp_of_mem fun {a b} ha hb lt => ?_)
  rw [h.keyed a.1 a.2 (OrderedMap.get?_eq_some_iff.mpr ha),
    h.keyed b.1 b.2 (OrderedMap.get?_eq_some_iff.mpr hb)]
  exact lt

/-- An event that is delivered twice is applied once. -/
theorem Indexed.apply_apply (h : s.Indexed) (e : Event K) : (s.apply e).apply e = s.apply e := by
  refine ((h.apply e).apply e).ext (h.apply e) fun k => ?_
  rw [get?_apply, get?_apply]
  split <;> rfl

/-- Events of different keys may come in either order. -/
theorem Indexed.apply_comm (h : s.Indexed) {e e' : Event K} (other : e.key ≠ e'.key) :
    (s.apply e).apply e' = (s.apply e').apply e := by
  refine ((h.apply e).apply e').ext ((h.apply e').apply e) fun k => ?_
  simp only [get?_apply]
  by_cases hk : k = e.key
  · have hk' : k ≠ e'.key := fun he => other (hk.symm.trans he)
    rw [if_neg hk', if_pos hk, if_pos hk]
  · rw [if_neg hk, if_neg hk]

/-- The events of a key since it was deleted last. -/
def sinceDeleted (es : List (Event K)) (k : Key) : List (Event K) :=
  (es.filter (·.key = k)).rtakeWhile (·.kind ≠ .deleted)

/-- The last event since the last deletion tells what is stored. -/
theorem get?_replay_eq (es : List (Event K)) (k : Key) :
    (replay es).get? k = (sinceDeleted es k).getLast?.map Event.object := by
  rw [get?_replay, sinceDeleted]
  generalize es.filter (·.key = k) = own
  induction own using List.reverseRecOn with
  | nil => rfl
  | append_singleton front e _ =>
    rw [List.getLast?_concat, List.rtakeWhile_concat, Option.bind_some, Event.left?_eq]
    by_cases gone : e.kind = .deleted
    · simp [gone]
    · simp [gone]

/-- **A store tells what its events told last, and its index tells the same.** Whatever events
made it, under each key is the object of the last event since the key was deleted last. All
objects are listed once and in key order, the objects of an owner are what a scan of that list
finds, and the index knows no owner but those of stored objects. To deliver an event twice, or
two events of different keys in the other order, makes no difference. -/
theorem cache_faithful (es : List (Event K)) :
    let s := replay es
    (∀ k, s.get? k = (sinceDeleted es k).getLast?.map Event.object) ∧
      (s.list.Pairwise (fun x y => compare (Resource.key x) (Resource.key y) = .lt) ∧
        ∀ x, x ∈ s.list ↔ s.get? (Resource.key x) = some x) ∧
      (∀ o, s.ownedBy o = s.list.filter fun x => (Resource.metadata x).RefersTo o) ∧
      (∀ o keys, OrderedMap.get? s.owned o = some keys → (∃ k, k ∈ keys) ∧
        ∀ k ∈ keys, ∃ x, s.get? k = some x ∧ (Resource.metadata x).RefersTo o) ∧
      (∀ e, (s.apply e).apply e = s.apply e) ∧
      ∀ e e', e.key ≠ e'.key → (s.apply e).apply e' = (s.apply e').apply e := by
  intro s
  have ix : s.Indexed := indexed_replay es
  refine ⟨get?_replay_eq es, ⟨ix.increasing, fun x => ix.mem_list⟩, fun o => ?_,
    fun o keys entered => ⟨ix.occupied o keys entered, fun k hk => ?_⟩, ix.apply_apply,
    fun e e' other => ix.apply_comm other⟩
  · rw [ix.ownedBy_eq]
    exact List.filter_congr fun x _ => decide_eq_decide.mpr Metadata.mem_ownerKeys
  · obtain ⟨x, found, refers⟩ := (ix.holds o k).mp ((OwnerIndex.holds_of_get? entered).mpr hk)
    exact ⟨x, found, Metadata.mem_ownerKeys.mp refers⟩

/-- A machine that refers to its owner twice is told twice and handed over, another is only
heard of when it changes, and a third is deleted without having been heard of. -/
theorem cache_faithful_handed_over :
    let a := Trial.Fixture.worker "tenant" "a" default
    let b := Trial.Fixture.worker "tenant" "b" default
    let old := Resource.ownedBy a (Trial.Fixture.machine a "set" "m" default .ready none)
    let new := Trial.Fixture.machine b "set" "m" default .ready none
    let other := Trial.Fixture.machine b "set" "k" default .pending none
    let gone := Trial.Fixture.machine b "set" "n" default .failed none
    let s : Store Machine :=
      replay [.created old, .created old, .deleted gone, .updated old new, .updated new other]
    s.get? ⟨"tenant", "m"⟩ = some new ∧ s.ownedBy ⟨"Worker", "tenant", "a"⟩ = [] ∧
      s.ownedBy ⟨"Worker", "tenant", "b"⟩ = [other, new] ∧
      OrderedMap.get? s.owned ⟨"Worker", "tenant", "a"⟩ = none ∧
      (s.apply (.deleted new)).apply (.created gone) =
        (s.apply (.created gone)).apply (.deleted new) := by
  intro a b old new other gone s
  obtain ⟨stored, -, owned, -, -, comm⟩ := cache_faithful
    [.created old, .created old, .deleted gone, .updated old new, .updated new other]
  refine ⟨(stored _).trans (by decide), (owned _).trans (by decide), (owned _).trans (by decide),
    ?_, comm (.deleted new) (.created gone) (by decide)⟩
  decide

end Store

end PoolControl
