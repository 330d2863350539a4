import PoolControl.Api.Write
import PoolControl.Proofs.Store

/-! What a tracker makes of its objects.

An object is always found under its own key (`Keyed`), whatever users ask for, since the
tracker keeps names. Whatever is found after a request was there before or comes from the
request, its metadata apart (`found_create`, `found_modify`, `found_delete`).

The rest is about workers, and says what one request leaves behind: `create_cases` for a new
worker, `outcome_modify` for a change, `outcome_delete` for a deletion. A change is described
by what it may touch: `Follows` lists the fields that the tracker takes from the request and
those that it keeps, and `Outcome` adds that a worker in deletion goes with its last
finalizer. Free-form data is not described, as the tracker does not tell the signs of zero
apart. -/
namespace PoolControl

theorem Metadata.hasFinalizer_of_bare {m : Metadata} (bare : m.finalizers = []) (f : String) :
    m.hasFinalizer f = false := by
  simp [hasFinalizer, bare]

/-! ### Keys -/

/-- The key of the object an event leaves is the key of the event. -/
theorem Event.key_of_left? {K : Type} [Resource K] {e : Event K} {x : K} (h : e.left? = some x) :
    Resource.key x = e.key := by
  cases e with
  | deleted y => cases h
  | _ => cases h; rfl

namespace Tracker

section

variable {K : Type} [Resource K]

theorem get?_publish (t : Tracker K) (e : Event K) (k : Key) :
    (t.publish e).get? k = if k = e.key then e.left? else t.get? k :=
  Store.get?_apply t.store e k

/-- Every object stands under its own key. -/
def Keyed (t : Tracker K) : Prop := ∀ k x, t.get? k = some x → Resource.key x = k

theorem keyed_empty : (∅ : Tracker K).Keyed := fun _ _ h => by cases h

theorem Keyed.publish {t : Tracker K} (h : t.Keyed) (e : Event K) : (t.publish e).Keyed := by
  intro k x hx
  rw [get?_publish] at hx
  split at hx
  · rename_i hk
    exact (Event.key_of_left? hx).trans hk.symm
  · exact h k x hx

theorem Keyed.of_store {t t' : Tracker K} (h : t.Keyed) (hs : t'.store = t.store) : t'.Keyed := by
  intro k x hx
  refine h k x ?_
  show t.store.get? k = some x
  rw [← hs]
  exact hx

theorem Keyed.create {t : Tracker K} (h : t.Keyed) (now : Timestamp) (x : K) :
    (t.create now x).2.Keyed := by
  unfold Tracker.create
  dsimp only
  split
  · exact h
  · exact Keyed.publish (h.of_store rfl) _

theorem Keyed.modify {t : Tracker K} (h : t.Keyed) (k : Key) (change : K → K) :
    (t.modify k change).2.Keyed := by
  unfold Tracker.modify
  split
  · exact h
  · dsimp only
    split
    · exact h
    · exact Keyed.publish (h.of_store rfl) _

theorem Keyed.delete {t : Tracker K} (h : t.Keyed) (now : Timestamp) (k : Key) :
    (t.delete now k).2.Keyed := by
  unfold Tracker.delete
  split
  · exact h
  · dsimp only
    split
    · exact h.publish _
    · split
      · exact h
      · exact Keyed.publish (h.of_store rfl) _

/-! ### Where an object comes from -/

theorem found_publish {t : Tracker K} {e : Event K} {k : Key} {x : K}
    (h : (t.publish e).get? k = some x) : t.get? k = some x ∨ e.left? = some x := by
  rw [get?_publish] at h
  split at h
  · exact .inr h
  · exact .inl h

theorem found_create {t : Tracker K} {now : Timestamp} {x y : K} {k : Key}
    (h : (t.create now x).2.get? k = some y) :
    t.get? k = some y ∨ ∃ m, y = Resource.withMetadata x m := by
  unfold Tracker.create at h
  dsimp only at h
  split at h
  · exact .inl h
  · rcases found_publish h with h | h
    · exact .inl h
    · exact .inr ⟨_, (Option.some.inj h).symm⟩

/-- A change takes all but the metadata from the request. -/
theorem numbered_proposed (v : Nat) (old : K) (change : K → K) :
    ∃ m, numbered v old (proposed old change) = Resource.withMetadata (change old) m :=
  ⟨_, Resource.withMetadata_withMetadata _ _ _⟩

/-- A change that changes nothing does nothing. Any other is published. -/
theorem modify_cases {t : Tracker K} {k : Key} {old : K} (found : t.get? k = some old)
    (change : K → K) :
    Resource.same (proposed old change) old = true ∧ (t.modify k change).2 = t ∨
      (t.modify k change).2 = { t with version := t.version + 1 }.publish
        (writeEvent old (numbered (t.version + 1) old (proposed old change))) := by
  simp only [modify, found]
  split
  · rename_i same
    exact .inl ⟨same, rfl⟩
  · exact .inr rfl

/-- A marked object without finalizers is told to be gone, any other to be updated. -/
theorem writeEvent_cases (old new : K) :
    ((Resource.metadata new).isDeleting = true ∧ (Resource.metadata new).finalizers = [] ∧
        writeEvent old new = .deleted new) ∨
      (((Resource.metadata new).isDeleting = true → (Resource.metadata new).finalizers ≠ []) ∧
        writeEvent old new = .updated old new) := by
  unfold writeEvent
  dsimp only
  split
  · rename_i gone
    obtain ⟨deleting, bare⟩ := Bool.and_eq_true_iff.mp gone
    exact .inl ⟨deleting, List.isEmpty_iff.mp bare, rfl⟩
  · rename_i stays
    exact .inr ⟨fun deleting bare => stays (by rw [deleting, bare]; rfl), rfl⟩

theorem found_modify {t : Tracker K} {k k' : Key} {change : K → K} {y : K}
    (h : (t.modify k change).2.get? k' = some y) :
    t.get? k' = some y ∨
      ∃ old m, t.get? k = some old ∧ y = Resource.withMetadata (change old) m := by
  cases found : t.get? k with
  | none =>
    simp only [modify, found] at h
    exact .inl h
  | some old =>
    rcases modify_cases found change with ⟨-, he⟩ | he
    · rw [he] at h
      exact .inl h
    · rw [he] at h
      refine (found_publish h).imp id fun told => ?_
      obtain ⟨m, hm⟩ := numbered_proposed (t.version + 1) old change
      rcases writeEvent_cases old (numbered (t.version + 1) old (proposed old change)) with
        ⟨-, -, hw⟩ | ⟨-, hw⟩
      · rw [hw] at told
        cases told
      · rw [hw] at told
        exact ⟨old, m, rfl, (Option.some.inj told).symm.trans hm⟩

theorem found_delete {t : Tracker K} {now : Timestamp} {k k' : Key} {y : K}
    (h : (t.delete now k).2.get? k' = some y) :
    t.get? k' = some y ∨ ∃ old m, t.get? k = some old ∧ y = Resource.withMetadata old m := by
  unfold Tracker.delete at h
  split at h
  · exact .inl h
  · rename_i old found
    dsimp only at h
    split at h
    · rcases found_publish h with h | h
      · exact .inl h
      · cases h
    · split at h
      · exact .inl h
      · rcases found_publish h with h | h
        · exact .inl h
        · exact .inr ⟨old, _, found, (Option.some.inj h).symm⟩

end

/-! ### Requests -/

/-- What `y` takes from `x` and what it keeps of `old`. -/
structure Follows (old x y : Worker) : Prop where
  finalizers : y.metadata.finalizers = x.metadata.finalizers
  annotations : y.metadata.annotations = x.metadata.annotations
  lastOperation : y.status.lastOperation = x.status.lastOperation
  deleted : y.metadata.deleted = old.metadata.deleted
  key : y.key = old.key

namespace Follows

variable {old x y : Worker} (h : Follows old x y)
include h

theorem hasFinalizer (f : String) : y.metadata.hasFinalizer f = x.metadata.hasFinalizer f := by
  simp only [Metadata.hasFinalizer, h.finalizers]

theorem request : y.metadata.request? = x.metadata.request? := by
  simp only [Metadata.request?, h.annotations]

theorem isDeleting : y.metadata.isDeleting = old.metadata.isDeleting := by
  simp only [Metadata.isDeleting, h.deleted]

theorem isMigrated : y.isMigrated = x.isMigrated := by
  simp only [Worker.isMigrated, h.lastOperation]

end Follows

/-- What stands under the key, and at which version, after the tracker was asked at version
`v` to put `x` in place of `old`. -/
inductive Outcome (old x : Worker) (v : Nat) : Option Worker → Nat → Prop
  | kept {y : Worker} {v' : Nat} (follows : Follows old x y) (later : v ≤ v')
      (dated : old.metadata.resourceVersion ≤ v →
        old.metadata.resourceVersion ≤ y.metadata.resourceVersion ∧
          y.metadata.resourceVersion ≤ v') : Outcome old x v (some y) v'
  | gone {v' : Nat} (bare : x.metadata.finalizers = [])
      (deleting : old.metadata.isDeleting = true) (later : v ≤ v') : Outcome old x v none v'

/-- What stands under the key, and at which version, after the deletion of `old` was asked
for at version `v`. -/
inductive Removal (now : Timestamp) (old : Worker) (v : Nat) : Option Worker → Nat → Prop
  | gone (bare : old.metadata.finalizers = []) : Removal now old v none v
  | kept (finalizers : old.metadata.finalizers ≠ [])
      (deleting : old.metadata.isDeleting = true) : Removal now old v (some old) v
  | marked (finalizers : old.metadata.finalizers ≠ []) :
      Removal now old v (some (marked (v + 1) now old)) (v + 1)

theorem Outcome.later {old x : Worker} {v v' : Nat} {stored : Option Worker}
    (h : Outcome old x v stored v') : v ≤ v' := by
  cases h <;> assumption

theorem Removal.later {now : Timestamp} {old : Worker} {v v' : Nat} {stored : Option Worker}
    (h : Removal now old v stored v') : v ≤ v' := by
  cases h with
  | gone | kept => exact Nat.le_refl _
  | marked => exact Nat.le_succ _

/-- What a deletion leaves is in deletion. -/
theorem Removal.deleting {now : Timestamp} {old y : Worker} {v v' : Nat}
    {stored : Option Worker} (h : Removal now old v stored v') (left : stored = some y) :
    y.metadata.isDeleting = true := by
  cases h with
  | gone => cases left
  | kept _ deleting =>
    cases left
    exact deleting
  | marked =>
    cases left
    rfl

variable {t : Tracker Worker} {k : Key} {old : Worker}

/-- A request that comes to the object as it is takes nothing from the request. -/
theorem follows_of_same {x : Worker}
    (h : (proposed old fun _ => x).unsigned = old.unsigned) : Follows old x old := by
  have metadata : restoreMetadata old.metadata x.metadata = old.metadata :=
    congrArg Worker.metadata h
  have status : x.status.lastOperation = old.status.lastOperation :=
    congrArg (fun w => w.status.lastOperation) (show (proposed old fun _ => x).unsigned = _ from h)
  exact ⟨(congrArg Metadata.finalizers metadata).symm,
    (congrArg Metadata.annotations metadata).symm, status.symm, rfl, rfl⟩

theorem follows_numbered (v : Nat) (x : Worker) :
    Follows old x (numbered v old (proposed old fun _ => x)) :=
  ⟨rfl, rfl, rfl, rfl, rfl⟩

theorem modify_of_missing (h : t.get? k = none) (change : Worker → Worker) :
    t.modify k change = (.error (.notFound t.kind k), t) := by
  simp only [modify, h]

/-- What a change leaves behind. It never fails for a worker that is there. -/
theorem outcome_modify (h : t.get? k = some old) (hk : old.key = k) (change : Worker → Worker) :
    (∃ y, (t.modify k change).1 = .ok y) ∧
      Outcome old (change old) t.version ((t.modify k change).2.get? k)
        (t.modify k change).2.version ∧
      ∀ k', k' ≠ k → (t.modify k change).2.get? k' = t.get? k' := by
  simp only [modify, h]
  by_cases hs : Resource.same (proposed old change) old = true
  · rw [if_pos hs]
    refine ⟨⟨old, rfl⟩, ?_, fun _ _ => rfl⟩
    show Outcome old (change old) t.version (t.get? k) t.version
    rw [h]
    exact .kept (follows_of_same (of_decide_eq_true hs)) (Nat.le_refl _)
      fun hv => ⟨Nat.le_refl _, hv⟩
  · rw [if_neg hs]
    generalize hn : numbered (t.version + 1) old (proposed old change) = new
    have follows : Follows old (change old) new := by
      rw [← hn]
      exact follows_numbered _ _
    have version : new.metadata.resourceVersion = t.version + 1 := by
      rw [← hn]
      rfl
    have key : (writeEvent old new).key = k := by
      simp only [writeEvent]
      split
      · exact follows.key.trans hk
      · exact follows.key.trans hk
    refine ⟨⟨new, rfl⟩, ?_, fun k' hk' => ?_⟩
    · show Outcome _ _ _ (Tracker.get? (Tracker.publish _ (writeEvent old new)) k) (t.version + 1)
      rw [get?_publish, if_pos key.symm]
      simp only [writeEvent]
      split
      · rename_i gone
        obtain ⟨deleting, bare⟩ := Bool.and_eq_true_iff.mp gone
        refine .gone ?_ ?_ (Nat.le_succ _)
        · rw [← follows.finalizers]
          exact List.isEmpty_iff.mp bare
        · show old.metadata.deleted.isSome = true
          rw [← follows.deleted]
          exact deleting
      · refine .kept follows (Nat.le_succ _) fun hv => ?_
        show _ ≤ new.metadata.resourceVersion ∧ new.metadata.resourceVersion ≤ _
        rw [version]
        exact ⟨Nat.le_succ_of_le hv, Nat.le_refl _⟩
    · show Tracker.get? (Tracker.publish _ (writeEvent old new)) k' = _
      rw [get?_publish, if_neg fun e => hk' (e.trans key)]
      rfl

/-- A creation fails for a key in use. Otherwise the worker is stored with the next version. -/
theorem create_cases (t : Tracker Worker) (now : Timestamp) (x : Worker) :
    (∃ e, t.create now x = (.error e, t)) ∨
      t.get? x.key = none ∧ ∃ y t', t.create now x = (.ok y, t') ∧
        y = { x with metadata := { x.metadata with
          resourceVersion := t.version + 1
          generation := 1
          created := some (x.metadata.created.getD now) } } ∧
        t'.version = t.version + 1 ∧
        ∀ k, t'.get? k = if k = x.key then some y else t.get? k := by
  cases h : t.get? x.key with
  | some y =>
    have h' : t.get? (Resource.key x) = some y := h
    simp only [create, h']
    exact .inl ⟨_, rfl⟩
  | none =>
    have h' : t.get? (Resource.key x) = none := h
    simp only [create, h']
    refine .inr ⟨trivial, _, _, rfl, rfl, rfl, fun k => ?_⟩
    exact get?_publish _ _ k

theorem delete_of_missing (h : t.get? k = none) (now : Timestamp) :
    t.delete now k = (.error (.notFound t.kind k), t) := by
  simp only [delete, h]

/-- What a deletion leaves behind. It takes a worker without finalizers away and marks any
other, and never fails for a worker that is there. -/
theorem outcome_delete (h : t.get? k = some old) (hk : old.key = k) (now : Timestamp) :
    (t.delete now k).1 = .ok () ∧
      Removal now old t.version ((t.delete now k).2.get? k) (t.delete now k).2.version ∧
      ∀ k', k' ≠ k → (t.delete now k).2.get? k' = t.get? k' := by
  simp only [delete, h]
  have bare : (Resource.metadata old).finalizers.isEmpty = true ↔ old.metadata.finalizers = [] :=
    List.isEmpty_iff
  by_cases hf : old.metadata.finalizers = []
  · rw [if_pos (bare.mpr hf)]
    have key : (Event.deleted old).key = k := hk
    refine ⟨rfl, ?_, fun k' hk' => ?_⟩
    · show Removal now old t.version ((t.publish (.deleted old)).get? k) t.version
      rw [get?_publish, if_pos key.symm]
      exact .gone hf
    · exact (get?_publish _ _ _).trans (if_neg fun e => hk' (e.trans key))
  · rw [if_neg fun e => hf (bare.mp e)]
    by_cases hd : old.metadata.isDeleting = true
    · rw [if_pos (show (Resource.metadata old).isDeleting = true from hd)]
      refine ⟨rfl, ?_, fun _ _ => rfl⟩
      show Removal now old t.version (t.get? k) t.version
      rw [h]
      exact .kept hf hd
    · rw [if_neg (show ¬ (Resource.metadata old).isDeleting = true from hd)]
      have key : (Event.updated old (marked (t.version + 1) now old)).key = k := hk
      refine ⟨rfl, ?_, fun k' hk' => ?_⟩
      · show Removal now old t.version (Tracker.get? (Tracker.publish _ _) k) (t.version + 1)
        rw [get?_publish, if_pos key.symm]
        exact .marked hf
      · exact (get?_publish _ _ _).trans (if_neg fun e => hk' (e.trans key))

/-- A change leaves nothing where nothing was. -/
theorem found_of_modify {f : Worker → Worker} {y : Worker}
    (left : (t.modify k f).2.get? k = some y) : ∃ old, t.get? k = some old := by
  cases found : t.get? k with
  | none =>
    rw [modify_of_missing found] at left
    cases found.symm.trans left
  | some old => exact ⟨old, rfl⟩

/-- What a change leaves is the worker as it was, or as it was asked for. -/
theorem left_modify (found : t.get? k = some old) (hk : old.key = k) {f : Worker → Worker}
    {y : Worker} (left : (t.modify k f).2.get? k = some y) :
    Resource.same (proposed old f) old = true ∧ y = old ∨
      y = numbered (t.version + 1) old (proposed old f) ∧
        (y.metadata.isDeleting = true → y.metadata.finalizers ≠ []) := by
  rcases modify_cases found f with ⟨same, he⟩ | he
  · rw [he, found] at left
    exact .inl ⟨same, (Option.some.inj left).symm⟩
  · rw [he, get?_publish] at left
    rcases writeEvent_cases old (numbered (t.version + 1) old (proposed old f)) with
      ⟨-, -, hw⟩ | ⟨stays, hw⟩
    · have key : k = (Event.deleted (numbered (t.version + 1) old (proposed old f))).key :=
        hk.symm
      rw [hw, if_pos key] at left
      cases left
    · have key : k = (Event.updated old (numbered (t.version + 1) old (proposed old f))).key :=
        hk.symm
      rw [hw, if_pos key] at left
      cases left
      exact .inr ⟨rfl, stays⟩

/-- What a deletion leaves is the worker, marked now or before. -/
theorem left_delete (found : t.get? k = some old) (hk : old.key = k) {now : Timestamp}
    {y : Worker} (left : (t.delete now k).2.get? k = some y) :
    y = old ∨ y = marked (t.version + 1) now old ∧ old.metadata.isDeleting = false := by
  simp only [delete, found] at left
  split at left
  · have key : k = (Event.deleted old).key := hk.symm
    rw [get?_publish, if_pos key] at left
    cases left
  · split at left
    · rw [found] at left
      exact .inl (Option.some.inj left).symm
    · rename_i present
      have key : k = (Event.updated old (marked (t.version + 1) now old)).key := hk.symm
      rw [get?_publish, if_pos key] at left
      cases left
      exact .inr ⟨rfl, eq_false_of_ne_true present⟩

end Tracker

/-! ### The writes of controllers -/

namespace Write

theorem hasFinalizer_addFinalizer (k : Key) (f : String) (w : Worker) :
    ((addFinalizer k f).change w).metadata.hasFinalizer f = true := by
  simp only [change]
  split
  · assumption
  · simp only [Metadata.hasFinalizer, List.contains_append, List.contains_cons, BEq.rfl,
      Bool.true_or, Bool.or_true]

theorem hasFinalizer_removeFinalizer (k : Key) (f : String) (w : Worker) :
    ((removeFinalizer k f).change w).metadata.hasFinalizer f = false := by
  refine eq_false_of_ne_true fun on => ?_
  simp only [change, Metadata.hasFinalizer, List.contains_iff_mem, List.mem_filter] at on
  exact bne_iff_ne.mp on.2 rfl

/-- Only the write made for it takes a finalizer off. -/
theorem hasFinalizer_change {x : Write} {w : Worker} {f : String}
    (hx : ∀ k f', x = .removeFinalizer k f' → f' ≠ f)
    (hf : w.metadata.hasFinalizer f = true) : (x.change w).metadata.hasFinalizer f = true := by
  cases x with
  | addFinalizer k f' =>
    simp only [change]
    split
    · exact hf
    · simp only [Metadata.hasFinalizer, List.contains_append] at hf ⊢
      rw [hf, Bool.true_or]
  | removeFinalizer k f' =>
    have hne : f' ≠ f := hx k f' rfl
    simp only [change, Metadata.hasFinalizer, List.contains_iff_mem] at hf ⊢
    exact List.mem_filter.mpr ⟨hf, bne_iff_ne.mpr hne.symm⟩
  | _ => exact hf

/-- No write changes a spec. -/
theorem spec_change (x : Write) (w : Worker) : (x.change w).spec = w.spec := by
  cases x with
  | addFinalizer k f =>
    simp only [change]
    split <;> rfl
  | _ => rfl

/-- No write makes a request. -/
theorem request_change (x : Write) {w : Worker} (h : w.metadata.request? = none) :
    (x.change w).metadata.request? = none := by
  cases x with
  | addFinalizer k f =>
    simp only [change]
    split <;> exact h
  | clearRequest k =>
    refine (OrderedMap.get?_erase _ _ _).trans ?_
    split
    · rfl
    · exact h
  | _ => exact h

theorem request_clearRequest (k : Key) (w : Worker) :
    ((clearRequest k).change w).metadata.request? = none :=
  (OrderedMap.get?_erase _ _ _).trans (if_pos rfl)

end Write

namespace Api

/-- A write changes the worker that it is for, and nothing of another kind. -/
theorem write_eq (a : Api) (w : Write) :
    (a.write w).2 = { a with workers := (a.workers.modify w.key w.change).2 } := by
  unfold write
  split <;> rename_i h <;> rw [h]

theorem workers_write (a : Api) (w : Write) :
    (a.write w).2.workers = (a.workers.modify w.key w.change).2 := by
  rw [write_eq]

theorem clusters_write (a : Api) (w : Write) : (a.write w).2.clusters = a.clusters := by
  rw [write_eq]

theorem write_of_missing {a : Api} {w : Write} (h : a.workers.get? w.key = none) :
    a.write w = (.error (.notFound .worker w.key), a) := by
  simp only [write, Tracker.modify_of_missing h]
  rfl

theorem outcome_write {a : Api} {w : Write} {old : Worker} (h : a.workers.get? w.key = some old)
    (hk : old.key = w.key) :
    (a.write w).1 = .ok () ∧
      Tracker.Outcome old (w.change old) a.workers.version ((a.write w).2.workers.get? w.key)
        (a.write w).2.workers.version ∧
      ∀ k', k' ≠ w.key → (a.write w).2.workers.get? k' = a.workers.get? k' := by
  obtain ⟨⟨y, hy⟩, outcome, others⟩ := Tracker.outcome_modify h hk w.change
  rw [workers_write]
  refine ⟨?_, outcome, others⟩
  have split : a.workers.modify w.key w.change = (.ok y, (a.workers.modify w.key w.change).2) :=
    Prod.ext hy rfl
  simp only [write]
  rw [split]

/-- A write leaves every worker its spec. -/
theorem spec_write {a : Api} (keyed : a.workers.Keyed) {w : Write} {k : Key} {y : Worker}
    (stored : (a.write w).2.workers.get? k = some y) :
    ∃ old, a.workers.get? k = some old ∧ y.spec = old.spec := by
  by_cases hk : k = w.key
  · subst hk
    rw [workers_write] at stored
    rcases Tracker.found_modify stored with same | ⟨old, m, found, rfl⟩
    · exact ⟨y, same, rfl⟩
    · exact ⟨old, found, Write.spec_change w old⟩
  · cases found : a.workers.get? w.key with
    | none =>
      rw [write_of_missing found] at stored
      exact ⟨y, stored, rfl⟩
    | some old =>
      obtain ⟨-, -, others⟩ := outcome_write found (keyed _ _ found)
      exact ⟨y, (others k hk).symm.trans stored, rfl⟩

theorem keyed_write {a : Api} (h : a.workers.Keyed) (w : Write) : (a.write w).2.workers.Keyed := by
  rw [workers_write]
  exact h.modify w.key w.change

end Api

end PoolControl
