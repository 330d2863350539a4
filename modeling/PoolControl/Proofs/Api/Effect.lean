import PoolControl.Proofs.Api.Tracker

/-! What a request comes to.

A request is refused, or it comes to nothing, or one event is told of it. `Effect` lists every
way that a request can go, with the reply and with what becomes of the tracker, and `effect` says
that there are no others. What is said of requests elsewhere is read off this list. -/
namespace PoolControl.Tracker

variable {K : Type}

/-! ### Requests -/

/-- A request for a write. -/
inductive Request (K : Type)
  | create (now : Timestamp) (x : K)
  | update (x : K)
  | modify (k : Key) (change : K → K)
  | delete (now : Timestamp) (k : Key)

variable [Resource K] {t t' : Tracker K}

/-- What a request makes of a tracker, whether or not it is granted. -/
def answer (t : Tracker K) : Request K → Tracker K
  | .create now x => (t.create now x).2
  | .update x => (t.update x).2
  | .modify k change => (t.modify k change).2
  | .delete now k => (t.delete now k).2

/-- What a request is told: that it is refused, or the object that it leaves behind, if it asks
for one. -/
def reply (t : Tracker K) : Request K → Except ApiError (Option K)
  | .create now x => (t.create now x).1.map some
  | .update x => (t.update x).1.map some
  | .modify k change => (t.modify k change).1.map some
  | .delete now k => (t.delete now k).1.map fun _ => none

/-- The key that a request is about. -/
def Request.key : Request K → Key
  | .create _ x => Resource.key x
  | .update x => Resource.key x
  | .modify k _ => k
  | .delete _ k => k

/-- What a request makes of the object, if it asks for a change. -/
def Request.change? : Request K → Option (K → K)
  | .update x => some fun _ => x
  | .modify _ change => some change
  | _ => none

/-! ### Objects as they are stored -/

/-- A new object as it is stored. -/
def stamped (version : Nat) (now : Timestamp) (x : K) : K :=
  Resource.mapMetadata (fun m =>
    { m with
      resourceVersion := version, generation := 1, created := some (m.created.getD now) }) x

/-- A changed object as it is stored. -/
def changed (version : Nat) (old : K) (change : K → K) : K :=
  numbered version old (proposed old change)

theorem metadata_stamped (v : Nat) (now : Timestamp) (x : K) :
    Resource.metadata (stamped v now x) =
      { Resource.metadata x with
        resourceVersion := v, generation := 1,
        created := some ((Resource.metadata x).created.getD now) } :=
  Resource.metadata_withMetadata _ _

/-- A change takes labels, annotations, finalizers and owners from the request. -/
theorem metadata_changed (v : Nat) (old : K) (change : K → K) :
    Resource.metadata (changed v old change) =
      { restoreMetadata (Resource.metadata old) (Resource.metadata (change old)) with
        generation := (Resource.metadata old).generation +
          if Resource.sameSpec old (proposed old change) then 0 else 1
        resourceVersion := v } := by
  rw [changed, numbered, proposed, Resource.mapMetadata, Resource.mapMetadata,
    Resource.metadata_withMetadata, Resource.metadata_withMetadata]
  split <;> simp [restoreMetadata]

theorem deleted_changed (v : Nat) (old : K) (change : K → K) :
    (Resource.metadata (changed v old change)).deleted = (Resource.metadata old).deleted := by
  rw [metadata_changed]
  rfl

theorem finalizers_changed (v : Nat) (old : K) (change : K → K) :
    (Resource.metadata (changed v old change)).finalizers =
      (Resource.metadata (change old)).finalizers := by
  rw [metadata_changed]
  rfl

theorem metadata_marked (v : Nat) (now : Timestamp) (x : K) :
    Resource.metadata (marked v now x) =
      { Resource.metadata x with
        deleted := some now, generation := (Resource.metadata x).generation + 1,
        resourceVersion := v } :=
  Resource.metadata_withMetadata _ _

@[simp]
theorem key_stamped (v : Nat) (now : Timestamp) (x : K) :
    Resource.key (stamped v now x) = Resource.key x :=
  (congrArg Metadata.key (metadata_stamped v now x)).trans rfl

@[simp]
theorem key_changed (v : Nat) (old : K) (change : K → K) :
    Resource.key (changed v old change) = Resource.key old :=
  (congrArg Metadata.key (metadata_changed v old change)).trans rfl

@[simp]
theorem key_marked (v : Nat) (now : Timestamp) (x : K) :
    Resource.key (marked v now x) = Resource.key x :=
  (congrArg Metadata.key (metadata_marked v now x)).trans rfl

/-! ### Effects -/

/-- Tells an event under the next version. -/
def commit (t : Tracker K) (e : Event K) : Tracker K :=
  { t with version := t.version + 1 }.publish e

/-- What a request comes to, with the reply. -/
inductive Effect (t : Tracker K) : Request K → Except ApiError (Option K) → Tracker K → Prop
  /-- The key is in use. -/
  | taken {now : Timestamp} {x y : K} (found : t.get? (Resource.key x) = some y) :
      Effect t (.create now x) (.error (.alreadyExists t.kind (Resource.key x))) t
  | created {now : Timestamp} {x : K} (free : t.get? (Resource.key x) = none) :
      Effect t (.create now x) (.ok (some (stamped (t.version + 1) now x)))
        (t.commit (.created (stamped (t.version + 1) now x)))
  /-- There is nothing to change or to delete. -/
  | missing {r : Request K} (asks : ∀ now x, r ≠ .create now x) (free : t.get? r.key = none) :
      Effect t r (.error (.notFound t.kind r.key)) t
  /-- The object is as the request wants it. -/
  | idle {r : Request K} {change : K → K} {old : K} (asks : r.change? = some change)
      (found : t.get? r.key = some old) (same : Resource.same (proposed old change) old = true) :
      Effect t r (.ok (some old)) t
  | changed {r : Request K} {change : K → K} {old : K} (asks : r.change? = some change)
      (found : t.get? r.key = some old) (differs : Resource.same (proposed old change) old = false)
      (stays : (Resource.metadata (Tracker.changed (t.version + 1) old change)).isDeleting = true →
        (Resource.metadata (Tracker.changed (t.version + 1) old change)).finalizers ≠ []) :
      Effect t r (.ok (some (Tracker.changed (t.version + 1) old change)))
        (t.commit (.updated old (Tracker.changed (t.version + 1) old change)))
  /-- The object was to be deleted, and the last finalizer is gone. -/
  | released {r : Request K} {change : K → K} {old : K} (asks : r.change? = some change)
      (found : t.get? r.key = some old) (differs : Resource.same (proposed old change) old = false)
      (deleting :
        (Resource.metadata (Tracker.changed (t.version + 1) old change)).isDeleting = true)
      (bare : (Resource.metadata (Tracker.changed (t.version + 1) old change)).finalizers = []) :
      Effect t r (.ok (some (Tracker.changed (t.version + 1) old change)))
        (t.commit (.deleted (Tracker.changed (t.version + 1) old change)))
  | removed {now : Timestamp} {k : Key} {old : K} (found : t.get? k = some old)
      (bare : (Resource.metadata old).finalizers = []) :
      Effect t (.delete now k) (.ok none) (t.publish (.deleted old))
  /-- The object is to be deleted already. -/
  | kept {now : Timestamp} {k : Key} {old : K} (found : t.get? k = some old)
      (held : (Resource.metadata old).finalizers ≠ [])
      (deleting : (Resource.metadata old).isDeleting = true) :
      Effect t (.delete now k) (.ok none) t
  | marked {now : Timestamp} {k : Key} {old : K} (found : t.get? k = some old)
      (held : (Resource.metadata old).finalizers ≠ [])
      (present : (Resource.metadata old).isDeleting = false) :
      Effect t (.delete now k) (.ok none)
        (t.commit (.updated old (Tracker.marked (t.version + 1) now old)))

theorem effect_create (t : Tracker K) (now : Timestamp) (x : K) :
    t.Effect (.create now x) ((t.create now x).1.map some) (t.create now x).2 := by
  unfold Tracker.create
  dsimp only
  split
  · rename_i y found
    exact .taken found
  · rename_i free
    exact .created free

/-- Both kinds of request for a change go alike. -/
theorem effect_modify (t : Tracker K) {r : Request K} {change : K → K}
    (asks : r.change? = some change) :
    t.Effect r ((t.modify r.key change).1.map some) (t.modify r.key change).2 := by
  cases found : t.get? r.key with
  | none =>
    simp only [modify, found]
    refine .missing (fun now x e => ?_) found
    subst e
    cases asks
  | some old =>
    simp only [modify, found]
    split
    · rename_i same
      exact .idle asks found same
    · rename_i differs
      have differs := eq_false_of_ne_true differs
      rcases writeEvent_cases old (changed (t.version + 1) old change) with
        ⟨deleting, bare, told⟩ | ⟨stays, told⟩
      · have released := Effect.released asks found differs deleting bare
        rw [← told] at released
        exact released
      · have changed := Effect.changed asks found differs stays
        rw [← told] at changed
        exact changed

theorem effect_delete (t : Tracker K) (now : Timestamp) (k : Key) :
    t.Effect (.delete now k) ((t.delete now k).1.map fun _ => none) (t.delete now k).2 := by
  cases found : t.get? k with
  | none =>
    simp only [delete, found]
    exact .missing (r := .delete now k) (fun _ _ e => by cases e) found
  | some old =>
    simp only [delete, found]
    split
    · rename_i bare
      exact .removed found (List.isEmpty_iff.mp bare)
    · rename_i held
      have held : (Resource.metadata old).finalizers ≠ [] := fun e => held (List.isEmpty_iff.mpr e)
      split
      · rename_i deleting
        exact .kept found held deleting
      · rename_i present
        exact .marked found held (eq_false_of_ne_true present)

/-- **A request goes one of these ways.** -/
theorem effect (t : Tracker K) (r : Request K) : t.Effect r (t.reply r) (t.answer r) := by
  cases r with
  | create now x => exact effect_create t now x
  | update x => exact effect_modify t (r := .update x) rfl
  | modify k change => exact effect_modify t (r := .modify k change) rfl
  | delete now k => exact effect_delete t now k

/-- What stands under a key after an event of it was told. -/
theorem left?_of_told {v : Nat} {e : Event K} {k : Key} {o : Option K}
    (left : ({ t with version := v }.publish e).get? k = o) (key : e.key = k) : e.left? = o := by
  rw [get?_publish, if_pos key.symm] at left
  exact left

/-- A request leaves the objects of other keys alone. -/
theorem Effect.others (keyed : t.Keyed) {r : Request K} {reply : Except ApiError (Option K)}
    (h : t.Effect r reply t') {k : Key} (other : k ≠ r.key) : t'.get? k = t.get? k := by
  -- Whatever is told is told of the object that the request is about.
  have told {v : Nat} {e : Event K} (key : e.key = r.key) :
      ({ t with version := v }.publish e).get? k = t.get? k :=
    (get?_publish _ e k).trans (if_neg fun same => other (same.trans key))
  cases h with
  | taken | missing | idle | kept => rfl
  | created => exact told (key_stamped ..)
  | changed _ found | released _ found => exact told ((key_changed ..).trans (keyed _ _ found))
  | removed found => exact told (keyed _ _ found)
  | marked found => exact told ((key_marked ..).trans (keyed _ _ found))

end PoolControl.Tracker
