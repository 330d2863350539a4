import Mathlib.Computability.Language
import PoolControl.Proofs.Api.Feed
import PoolControl.Trial.Fixture

/-! A feed is a log of its tracker.

A tracker tells its own store and every feed the same events (`Tells`), and a feed begins
with a creation for every object that is stored at the time. `Admits` says which events may
come next for a store: a creation for a key that is free, an update from the object that is
stored to a newer one, a deletion or a repetition of what is stored. Every request tells
at most one event, which the store admits (`answers`), and telling everything again changes
nothing, so whoever replays the events of a feed has the tracker's store, index and all.

`faithful_log` follows one watcher through any requests, other watchers coming and going. To
it was delivered what it took from its feed and what it may take now. -/
namespace PoolControl

open scoped Computability

/-! ### What a store admits -/

namespace Store

variable {K : Type} [Resource K] {s : Store K} {es es' : List (Event K)}

/-- Which events may be told of a store. An update that changed the spec raised the
generation. -/
inductive Admits (s : Store K) : Event K → Prop
  | created {x : K} (free : s.get? (Resource.key x) = none) : Admits s (.created x)
  | updated {x y : K} (found : s.get? (Resource.key y) = some x)
      (newer : Resource.version x < Resource.version y)
      (raised : (Resource.metadata x).generation = (Resource.metadata y).generation →
        ∃ m, Resource.sameSpec x (Resource.withMetadata y m) = true) :
      Admits s (.updated x y)
  | deleted {x y : K} (found : s.get? (Resource.key y) = some x) : Admits s (.deleted y)
  | generic {x : K} (found : s.get? (Resource.key x) = some x) : Admits s (.generic x)

/-- Whether each event of a list may be told of what those before it left. -/
def AdmitsAll (s : Store K) : List (Event K) → Prop
  | [] => True
  | e :: es => s.Admits e ∧ AdmitsAll (s.apply e) es

theorem admitsAll_append : s.AdmitsAll (es ++ es') ↔
    s.AdmitsAll es ∧ (es.foldl apply s).AdmitsAll es' := by
  induction es generalizing s with
  | nil => exact (and_iff_right trivial).symm
  | cons e es ih => simp only [List.cons_append, AdmitsAll, List.foldl_cons, ih, and_assoc]

end Store

/-! ### The kinds of events of one key -/

namespace EventKind

/-- Whole lives of objects, one after the other: each begins with a creation and ends with a
deletion. -/
def lives : Language EventKind := ({[.created]} * ({[.updated]} + {[.generic]})∗ * {[.deleted]})∗

/-- What is left of a life that has begun, and further lives. -/
def living : Language EventKind := ({[.updated]} + {[.generic]})∗ * ({[.deleted]} * lives)

variable {a : EventKind} {w : List EventKind}

theorem cons_mem_mul {l m : Language EventKind} (ha : [a] ∈ l) (hw : w ∈ m) : a :: w ∈ l * m :=
  Language.append_mem_mul ha hw

theorem nil_mem_lives : [] ∈ lives := Language.nil_mem_kstar _

theorem created_mem (h : w ∈ living) : .created :: w ∈ lives := by
  rw [lives, ← Language.one_add_self_mul_kstar_eq_kstar, ← lives, mul_assoc, mul_assoc]
  exact .inr (cons_mem_mul rfl h)

theorem deleted_mem (h : w ∈ lives) : .deleted :: w ∈ living :=
  Language.append_mem_mul (Language.nil_mem_kstar _) (cons_mem_mul rfl h)

theorem living_mem (ha : a = .updated ∨ a = .generic) (h : w ∈ living) : a :: w ∈ living := by
  have one : [a] ∈ ({[.updated]} + {[.generic]} : Language EventKind) :=
    ha.imp (congrArg fun b => [b]) (congrArg fun b => [b])
  rw [living, ← Language.one_add_self_mul_kstar_eq_kstar, add_mul, mul_assoc]
  exact .inr (cons_mem_mul one h)

end EventKind

namespace Store

variable {K : Type} [Resource K] {s : Store K}

/-- How the kinds of events of a key go on, given whether there is an object. -/
def expects (s : Store K) (k : Key) : Language EventKind :=
  if (s.get? k).isSome then EventKind.living else EventKind.lives

omit [Resource K] in
theorem expects_of_found {k : Key} {x : K} (h : s.get? k = some x) :
    s.expects k = EventKind.living := by
  rw [expects, h]
  rfl

omit [Resource K] in
theorem expects_of_missing {k : Key} (h : s.get? k = none) : s.expects k = EventKind.lives := by
  rw [expects, h]
  rfl

/-- An event that is admitted begins what is expected and leaves the rest of it. -/
theorem Admits.expected {e : Event K} (h : s.Admits e) {w : List EventKind}
    (hw : w ∈ (s.apply e).expects e.key) : e.kind :: w ∈ s.expects e.key := by
  have left : (s.apply e).get? e.key = e.left? := (get?_apply s e _).trans (if_pos rfl)
  cases h with
  | @created x free =>
    rw [show s.expects (Event.created x).key = _ from expects_of_missing free]
    exact EventKind.created_mem (expects_of_found left ▸ hw)
  | @updated x y found =>
    rw [show s.expects (Event.updated x y).key = _ from expects_of_found found]
    exact EventKind.living_mem (.inl rfl) (expects_of_found left ▸ hw)
  | @deleted x y found =>
    rw [show s.expects (Event.deleted y).key = _ from expects_of_found found]
    exact EventKind.deleted_mem (expects_of_missing left ▸ hw)
  | @generic x found =>
    rw [show s.expects (Event.generic x).key = _ from expects_of_found found]
    exact EventKind.living_mem (.inr rfl) (expects_of_found left ▸ hw)

/-- **The kinds of events that a store admits are the beginning of what is expected.** -/
theorem AdmitsAll.kinds {es : List (Event K)} (h : s.AdmitsAll es) (k : Key) :
    ∃ rest, (es.filter (·.key = k)).map Event.kind ++ rest ∈ s.expects k := by
  induction es generalizing s with
  | nil =>
    cases found : s.get? k with
    | none => exact ⟨[], expects_of_missing found ▸ EventKind.nil_mem_lives⟩
    | some x =>
      exact ⟨[.deleted], expects_of_found found ▸ EventKind.deleted_mem EventKind.nil_mem_lives⟩
  | cons e es ih =>
    obtain ⟨first, later⟩ := h
    obtain ⟨rest, hr⟩ := ih later
    refine ⟨rest, ?_⟩
    by_cases hk : e.key = k
    · have own : (e :: es).filter (·.key = k) = e :: es.filter (·.key = k) :=
        List.filter_cons_of_pos (decide_eq_true hk)
      rw [own]
      subst hk
      exact first.expected hr
    · have other : (e :: es).filter (·.key = k) = es.filter (·.key = k) :=
        List.filter_cons_of_neg fun h => hk (of_decide_eq_true h)
      have same : (s.apply e).get? k = s.get? k := (get?_apply s e k).trans (if_neg (Ne.symm hk))
      rw [other, expects, ← same]
      exact hr

/-- An update in a log of an empty store is from the last object of its key to a newer one. -/
theorem AdmitsAll.update {front back : List (Event K)} {x y : K}
    (h : (∅ : Store K).AdmitsAll (front ++ .updated x y :: back)) :
    (front.filter (·.key = Resource.key y)).getLast?.map Event.object = some x ∧
      Resource.version x < Resource.version y := by
  obtain ⟨-, admitted, -⟩ := admitsAll_append.mp h
  cases admitted with | updated found newer
  refine ⟨?_, newer⟩
  obtain ⟨e, last, left⟩ := Option.bind_eq_some_iff.mp ((get?_replay front _).symm.trans found)
  rw [last, ← Event.object_of_left? left]
  rfl

theorem admitsAll_created {xs : List K} (free : ∀ x ∈ xs, s.get? (Resource.key x) = none)
    (distinct : xs.Pairwise fun x y => Resource.key x ≠ Resource.key y) :
    s.AdmitsAll (xs.map .created) := by
  induction xs generalizing s with
  | nil => trivial
  | cons x xs ih =>
    obtain ⟨other, distinct⟩ := List.pairwise_cons.mp distinct
    refine ⟨.created (free x (List.mem_cons_self ..)), ih (fun y hy => ?_) distinct⟩
    rw [get?_apply, if_neg fun e => other y hy e.symm]
    exact free y (List.mem_cons_of_mem _ hy)

/-- Different objects of a store have different keys. -/
theorem Indexed.distinct (h : s.Indexed) :
    s.list.Pairwise fun x y => Resource.key x ≠ Resource.key y := by
  refine h.increasing.imp fun {x y} lt same => ?_
  rw [same] at lt
  cases (Std.ReflOrd.compare_self (a := Resource.key y)).symm.trans lt

/-- **Creating everything that is listed makes the store anew.** -/
theorem Indexed.replay_created (h : s.Indexed) : replay (s.list.map .created) = s := by
  refine (indexed_replay _).ext h fun k => ?_
  rw [get?_replay]
  cases last : ((s.list.map Event.created).filter (·.key = k)).getLast? with
  | none =>
    have empty := List.getLast?_eq_none_iff.mp last
    refine (Option.eq_none_iff_forall_ne_some.mpr fun x found => ?_).symm
    have key : (Event.created x).key = k := h.keyed k x found
    have listed : x ∈ s.list := OrderedMap.mem_values.mpr ⟨k, found⟩
    have created : Event.created x ∈ (s.list.map Event.created).filter (·.key = k) :=
      List.mem_filter.mpr ⟨List.mem_map_of_mem listed, decide_eq_true key⟩
    rw [empty] at created
    cases created
  | some e =>
    obtain ⟨created, key⟩ := List.mem_filter.mp (List.mem_of_getLast? last)
    obtain ⟨x, listed, rfl⟩ := List.mem_map.mp created
    rw [← of_decide_eq_true key]
    exact (h.mem_list.mp listed).symm

end Store

namespace Tracker

variable {K : Type} [Resource K] {t t' t'' : Tracker K} {es es' : List (Event K)} {id : Nat}

/-! ### What a tracker tells -/

/-- What became of a tracker after it told some events to its store and to every feed. -/
structure Tells (t t' : Tracker K) (es : List (Event K)) : Prop where
  store : t'.store = es.foldl Store.apply t.store
  feeds : t'.feeds = t.feeds.map fun f => { f with events := f.events ++ es }

theorem Tells.refl (t : Tracker K) : t.Tells t [] := by
  refine ⟨rfl, ?_⟩
  simp only [List.append_nil, List.map_id']

theorem Tells.trans (h : t.Tells t' es) (h' : t'.Tells t'' es') : t.Tells t'' (es ++ es') := by
  refine ⟨?_, ?_⟩
  · rw [h'.store, h.store, List.foldl_append]
  · rw [h'.feeds, h.feeds, List.map_map]
    simp only [Function.comp_def, List.append_assoc]

theorem tells_publish (t : Tracker K) (v : Nat) (e : Event K) :
    t.Tells ({ t with version := v }.publish e) [e] :=
  ⟨rfl, rfl⟩

/-! ### Requests -/

/-- What an answer comes to: nothing, or one event is told that the store admits. -/
inductive Answers (t : Tracker K) : Tracker K → Prop
  | silent : Answers t t
  | told {e : Event K} {v : Nat} (admitted : t.store.Admits e) :
      Answers t ({ t with version := v }.publish e)

/-- A change that leaves the generation leaves the spec. -/
theorem sameSpec_changed {v : Nat} {old : K} {change : K → K}
    (h : (Resource.metadata old).generation =
      (Resource.metadata (changed v old change)).generation) :
    ∃ m, Resource.sameSpec old (Resource.withMetadata (changed v old change) m) = true := by
  refine ⟨Resource.metadata (proposed old change), ?_⟩
  rw [changed, numbered, Resource.mapMetadata, Resource.withMetadata_withMetadata,
    Resource.withMetadata_metadata]
  refine eq_true_of_ne_false fun differs => ?_
  rw [metadata_changed, differs] at h
  -- Another spec raises the generation, so it cannot have stayed.
  exact absurd h (Int.lt_succ _).ne

theorem Effect.answers (h : t.Dated) {r : Request K} {reply : Except ApiError (Option K)}
    (e : t.Effect r reply t') : t.Answers t' := by
  -- What is told is told under the key that the object stands under.
  have stored {k : Key} {old y : K} (found : t.get? k = some old)
      (key : Resource.key y = Resource.key old) : t.store.get? (Resource.key y) = some old := by
    rw [key, h.keyed k old found]
    exact found
  cases e with
  | taken | missing | idle | kept => exact .silent
  | created free =>
    refine .told (.created ?_)
    rw [key_stamped]
    exact free
  | changed _ found =>
    refine .told (.updated (stored found (key_changed ..)) ?_ sameSpec_changed)
    rw [version_changed]
    exact Nat.lt_succ_of_le (h.version _ _ found)
  | released _ found => exact .told (.deleted (stored found (key_changed ..)))
  | removed found => exact .told (.deleted (stored found rfl))
  | marked found =>
    refine .told (.updated (stored found (key_marked ..)) ?_ fun same => ?_)
    · rw [version_marked]
      exact Nat.lt_succ_of_le (h.version _ _ found)
    · rw [metadata_marked] at same
      exact absurd same (Int.lt_succ _).ne

/-- **A request tells at most one event, which the store admits.** -/
theorem answers (h : t.Dated) (r : Request K) : t.Answers (t.answer r) :=
  (t.effect r).answers h

theorem Answers.tells (h : t.Answers t') : ∃ es, t.Tells t' es ∧ t.store.AdmitsAll es := by
  cases h with
  | silent => exact ⟨[], .refl t, trivial⟩
  | told admitted => exact ⟨_, tells_publish t _ _, admitted, trivial⟩

/-- Stored objects may be told again, which changes nothing that is stored. -/
theorem tells_retell (ix : t.store.Indexed) {xs : List K}
    (hx : ∀ x ∈ xs, t.get? (Resource.key x) = some x) :
    let t' := xs.foldl (fun t x => t.publish (.generic x)) t
    t.Tells t' (xs.map .generic) ∧ t.store.AdmitsAll (xs.map .generic) ∧ t'.store = t.store := by
  induction xs generalizing t with
  | nil => exact ⟨.refl t, trivial, rfl⟩
  | cons x xs ih =>
    have found : t.store.get? (Resource.key x) = some x := hx x (List.mem_cons_self ..)
    have same : t.store.apply (.generic x) = t.store := ix.apply_generic found
    have kept : (t.publish (.generic x)).store = t.store := same
    obtain ⟨tells, admitted, store⟩ := ih (kept.symm ▸ ix) fun y hy => by
      rw [get?, kept]
      exact hx y (List.mem_cons_of_mem _ hy)
    exact ⟨(tells_publish t t.version (.generic x)).trans tells, ⟨.generic found, admitted⟩,
      store.trans kept⟩

/-! ### Runs -/

/-- What may happen to a tracker. -/
inductive Act (K : Type)
  | request (r : Request K)
  | resync
  | watch (id : Nat)
  | unwatch (id : Nat)
  /-- A watcher takes the first events of its feed. -/
  | take (id n : Nat)

/-- What an act makes of a tracker. -/
def next (t : Tracker K) : Act K → Tracker K
  | .request r => t.answer r
  | .resync => t.resync
  | .watch id => t.watch id
  | .unwatch id => t.unwatch id
  | .take id n => t.advance id n

def run (t : Tracker K) : List (Act K) → Tracker K
  | [] => t
  | a :: rest => run (t.next a) rest

/-- A tracker in order. -/
structure Sound (t : Tracker K) : Prop where
  dated : t.Dated
  indexed : t.store.Indexed

theorem sound_empty : (∅ : Tracker K).Sound := ⟨dated_empty, Store.indexed_empty⟩

/-- Telling everything again tells each object once and stores nothing new. -/
theorem Sound.tells_resync (h : t.Sound) :
    t.Tells t.resync (t.list.map .generic) ∧ t.store.AdmitsAll (t.list.map .generic) ∧
      t.resync.store = t.store :=
  tells_retell h.indexed fun _ hx => h.dated.keyed.get?_of_mem hx

/-- A request, or telling everything again, tells what the store admits. -/
theorem Sound.tells (h : t.Sound) {a : Act K} (ha : a = .resync ∨ ∃ r, a = .request r) :
    ∃ es, t.Tells (t.next a) es ∧ t.store.AdmitsAll es := by
  rcases ha with rfl | ⟨r, rfl⟩
  · exact ⟨_, h.tells_resync.1, h.tells_resync.2.1⟩
  · exact (answers h.dated r).tells

theorem Sound.get?_resync (h : t.Sound) (k : Key) : t.resync.get? k = t.get? k :=
  congrArg (fun s : Store K => s.get? k) h.tells_resync.2.2

/-- An act is a request for an object, or it leaves the object alone. -/
theorem Sound.next_cases (h : t.Sound) (a : Act K) (k : Key) :
    (∃ r, a = .request r ∧ r.key = k) ∨ (t.next a).get? k = t.get? k := by
  cases a with
  | request r =>
    by_cases own : r.key = k
    · exact .inl ⟨r, rfl, own⟩
    · exact .inr ((t.effect r).others h.dated.keyed (Ne.symm own))
  | resync => exact .inr (h.get?_resync k)
  | _ => exact .inr rfl

theorem succeeds_next (h : t.Dated) (a : Act K) : t.Succeeds (t.next a) := by
  cases a with
  | request r => exact succeeds_answer h r
  | resync => exact succeeds_resync h
  | watch id => exact succeeds_watch h id
  | unwatch id => exact succeeds_unwatch h id
  | take id n => exact succeeds_advance h id n

theorem Sound.next (h : t.Sound) (a : Act K) : (t.next a).Sound := by
  refine ⟨(succeeds_next h.dated a).dated, ?_⟩
  have told (ha : a = .resync ∨ ∃ r, a = .request r) : (t.next a).store.Indexed := by
    obtain ⟨es, tells, -⟩ := h.tells ha
    rw [tells.store]
    exact h.indexed.foldl es
  cases a with
  | request r => exact told (.inr ⟨r, rfl⟩)
  | resync => exact told (.inl rfl)
  | _ => exact h.indexed

theorem Sound.run (h : t.Sound) (l : List (Act K)) : (t.run l).Sound := by
  induction l generalizing t with
  | nil => exact h
  | cons a rest ih => exact ih (h.next a)

/-! ### One watcher -/

/-- Whether a tracker has one feed of this name, with these events. -/
def Feeds (t : Tracker K) (id : Nat) (es : List (Event K)) : Prop :=
  t.feeds.filter (·.id = id) = [⟨id, es⟩]

omit [Resource K] in
theorem Feeds.pending (h : t.Feeds id es) : t.pending id = es := by
  have only : t.pending id = (t.feeds.filter (·.id = id)).flatMap Feed.events := by
    unfold Tracker.pending
    induction t.feeds with
    | nil => rfl
    | cons f fs ih =>
      rw [List.flatMap_cons, ih]
      by_cases hf : f.id = id <;> simp [hf]
  rw [only, h]
  exact List.append_nil es

theorem Feeds.tells (h : t.Feeds id es) (told : t.Tells t' es') : t'.Feeds id (es ++ es') := by
  rw [Feeds, told.feeds, List.filter_map]
  exact congrArg (List.map fun f : Feed K => { f with events := f.events ++ es' }) h

/-- Whether an act leaves the feed of a watcher in place. -/
def Act.Spares (id : Nat) : Act K → Prop
  | .watch id' | .unwatch id' => id' ≠ id
  | _ => True

instance : DecidablePred (Act.Spares (K := K) id) := fun a => by
  cases a <;> simp only [Act.Spares] <;> infer_instance

/-- What a watcher takes from its feed when something happens. -/
def taken (t : Tracker K) (id : Nat) : Act K → List (Event K)
  | .take id' n => if id' = id then (t.pending id).take n else []
  | _ => []

/-- What is delivered to a watcher along a run: the events it takes, and those that wait for
it in the end. -/
def delivered (t : Tracker K) (id : Nat) : List (Act K) → List (Event K)
  | [] => t.pending id
  | a :: rest => t.taken id a ++ (t.next a).delivered id rest

/-- A watcher that has seen some events: with those that wait for it they make a log. -/
structure Logs (t : Tracker K) (id : Nat) (seen : List (Event K)) : Prop where
  sound : t.Sound
  feeds : t.Feeds id (t.pending id)
  replay : Store.replay (seen ++ t.pending id) = t.store
  admitted : (∅ : Store K).AdmitsAll (seen ++ t.pending id)

variable {seen : List (Event K)}

/-- A new feed begins a log. -/
theorem logs_watch (h : t.Sound) (fresh : ∀ f ∈ t.feeds, f.id ≠ id) : (t.watch id).Logs id [] := by
  have feeds : (t.watch id).Feeds id (t.list.map .created) := by
    have none_ : t.feeds.filter (·.id = id) = [] :=
      List.filter_eq_nil_iff.mpr fun f hf e => fresh f hf (of_decide_eq_true e)
    rw [Feeds, Tracker.watch, List.filter_append, none_, List.nil_append]
    exact List.filter_cons_of_pos (decide_eq_true rfl)
  refine ⟨h.next (.watch id), feeds.pending.symm ▸ feeds, ?_, ?_⟩
  · rw [feeds.pending]
    exact h.indexed.replay_created
  · rw [feeds.pending]
    exact Store.admitsAll_created (fun _ _ => rfl) h.indexed.distinct

/-- What is told goes on with a log. -/
theorem Logs.tells (h : t.Logs id seen) (sound : t'.Sound) (told : t.Tells t' es)
    (admitted : t.store.AdmitsAll es) : t'.Logs id seen := by
  have feeds := h.feeds.tells told
  have pending := feeds.pending
  refine ⟨sound, pending.symm ▸ feeds, ?_, ?_⟩
  · rw [pending, ← List.append_assoc, Store.replay_append, h.replay, told.store]
  · rw [pending, ← List.append_assoc]
    refine Store.admitsAll_append.mpr ⟨h.admitted, ?_⟩
    show (Store.replay (seen ++ t.pending id)).AdmitsAll es
    rw [h.replay]
    exact admitted

/-- What leaves the store alone leaves a log, if it has the same events in all. -/
theorem Logs.of_feeds (h : t.Logs id seen) (sound : t'.Sound) (store : t'.store = t.store)
    {seen' : List (Event K)} (feeds : t'.Feeds id es)
    (all : seen' ++ es = seen ++ t.pending id) : t'.Logs id seen' := by
  refine ⟨sound, feeds.pending.symm ▸ feeds, ?_, ?_⟩
  · rw [feeds.pending, all, store]
    exact h.replay
  · rw [feeds.pending, all]
    exact h.admitted

omit [Resource K] in
theorem Feeds.advance (h : t.Feeds id es) (id' n : Nat) :
    (t.advance id' n).Feeds id (if id = id' then es.drop n else es) := by
  have same : (fun f : Feed K => decide (f.id = id)) ∘
      (fun f => if f.id = id' then { f with events := f.events.drop n } else f) =
        fun f => decide (f.id = id) := by
    funext f
    simp only [Function.comp_apply]
    split <;> rfl
  rw [Feeds, Tracker.advance, List.filter_map, same, h, List.map_singleton]
  split <;> rfl

/-- **A log goes on whatever happens**, with the events that its watcher takes. -/
theorem Logs.next (h : t.Logs id seen) {a : Act K} (kept : a.Spares id) :
    (t.next a).Logs id (seen ++ t.taken id a) := by
  have sound := h.sound.next a
  -- What is told goes both to the store and to the feed. Other watchers change neither.
  have told (ha : a = .resync ∨ ∃ r, a = .request r) : (t.next a).Logs id (seen ++ []) := by
    obtain ⟨es, tells, admitted⟩ := h.sound.tells ha
    rw [List.append_nil]
    exact h.tells sound tells admitted
  have spared (store : (t.next a).store = t.store)
      (feeds : (t.next a).feeds.filter (·.id = id) = t.feeds.filter (·.id = id)) :
      (t.next a).Logs id (seen ++ []) :=
    h.of_feeds sound store (feeds.trans h.feeds) (by rw [List.append_nil])
  cases a with
  | request r => exact told (.inr ⟨r, rfl⟩)
  | resync => exact told (.inl rfl)
  | watch id' =>
    refine spared rfl ((List.filter_append ..).trans ?_)
    have other : [(⟨id', t.list.map .created⟩ : Feed K)].filter (·.id = id) = [] :=
      List.filter_cons_of_neg fun e => kept (of_decide_eq_true e)
    rw [other, List.append_nil]
  | unwatch id' =>
    refine spared rfl (List.filter_filter.trans (List.filter_congr fun f _ => ?_))
    by_cases hf : f.id = id
    · rw [hf, decide_eq_true rfl, decide_eq_true (Ne.symm kept)]
      rfl
    · rw [decide_eq_false hf]
      rfl
  | take id' n =>
    refine h.of_feeds sound rfl (h.feeds.advance id' n) ?_
    rw [taken, List.append_assoc]
    congr 1
    by_cases hi : id' = id
    · rw [if_pos hi, if_pos hi.symm, List.take_append_drop]
    · rw [if_neg hi, if_neg (Ne.symm hi), List.nil_append]

theorem Logs.run {l : List (Act K)} (h : t.Logs id seen) (kept : ∀ a ∈ l, a.Spares id) :
    Store.replay (seen ++ t.delivered id l) = (t.run l).store ∧
      (∅ : Store K).AdmitsAll (seen ++ t.delivered id l) := by
  induction l generalizing t seen with
  | nil => exact ⟨h.replay, h.admitted⟩
  | cons a rest ih =>
    rw [delivered, ← List.append_assoc]
    refine ih (h.next (kept a (List.mem_cons_self ..))) fun b hb => ?_
    exact kept b (List.mem_cons_of_mem _ hb)

/-- **A feed is a faithful log of its tracker**, wherever it begins and whatever requests follow.
Replaying what was delivered gives the store of the tracker; the kinds of events of a key are
the beginning of whole lives; and every update is from the object that was delivered last for
its key to one with a larger resource version. -/
theorem faithful_log (before after : List (Act K)) (id : Nat)
    (fresh : ∀ f ∈ ((∅ : Tracker K).run before).feeds, f.id ≠ id)
    (kept : ∀ a ∈ after, a.Spares id) :
    let t := ((∅ : Tracker K).run before).watch id
    let log := t.delivered id after
    Store.replay log = (t.run after).store ∧
      (∀ k, ∃ rest, (log.filter (·.key = k)).map Event.kind ++ rest ∈ EventKind.lives) ∧
      ∀ front old new back, log = front ++ .updated old new :: back →
        (front.filter (·.key = Resource.key new)).getLast?.map Event.object = some old ∧
          (Resource.metadata old).resourceVersion < (Resource.metadata new).resourceVersion := by
  intro t log
  have begun : t.Logs id [] := logs_watch (sound_empty.run before) fresh
  obtain ⟨replay, admitted⟩ := begun.run kept
  refine ⟨replay, admitted.kinds, fun front old new back split => ?_⟩
  rw [List.nil_append, show t.delivered id after = _ from split] at admitted
  exact admitted.update

/-- A worker is there before the watcher, is marked, told again and let go, and is created
anew. -/
theorem faithful_log_renewed :
    let k : Key := ⟨"tenant", "pool"⟩
    let w := Trial.Fixture.worker "tenant" "pool" default
    let before : List (Act Worker) :=
      [.watch 0, .request (.create default (Trial.Fixture.withFinalizer "held" w))]
    let after : List (Act Worker) :=
      [.request (.delete default k), .take 1 1, .watch 2, .resync, .request (.update w), .unwatch 0,
        .request (.modify k fun w => w), .request (.create default w)]
    let t := ((∅ : Tracker Worker).run before).watch 1
    let log := t.delivered 1 after
    (∀ f ∈ ((∅ : Tracker Worker).run before).feeds, f.id ≠ 1) ∧ (∀ a ∈ after, a.Spares 1) ∧
      log.map Event.kind = [.created, .updated, .generic, .deleted, .created] ∧
      Store.replay log = (t.run after).store ∧
      ∀ k, ∃ rest, (log.filter (·.key = k)).map Event.kind ++ rest ∈ EventKind.lives := by
  intro k w before after t log
  have fresh : ∀ f ∈ ((∅ : Tracker Worker).run before).feeds, f.id ≠ 1 := by decide
  have kept : ∀ a ∈ after, a.Spares 1 := by decide
  obtain ⟨replay, kinds, -⟩ := faithful_log before after 1 fresh kept
  exact ⟨fresh, kept, by decide, replay, kinds⟩

end Tracker

end PoolControl
