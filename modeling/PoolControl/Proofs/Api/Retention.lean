import PoolControl.Proofs.Api.Life

/-! How long a tracker keeps an object.

The deletion of an object is requested once, and the object then stays as long as it has
finalizers. Removal is decided in two places: a request for deletion takes an object that nothing
holds, and a change takes one in deletion that it leaves bare. `Effect.removes_iff` says that both
come to the same rule, by what was asked of the object and what the request leaves it. -/
namespace PoolControl.Tracker

open Resource

/-! ### What one request does -/

/-- The object as a request wants it. -/
def Request.wanted {K : Type} (r : Request K) (x : K) : K := (r.change?.getD id) x

theorem Request.wanted_of_change {K : Type} {r : Request K} {change : K → K}
    (asks : r.change? = some change) (x : K) : r.wanted x = change x := by
  rw [wanted, asks]
  rfl

variable {K : Type} [Resource K] {t t' : Tracker K} {r : Request K}
  {reply : Except ApiError (Option K)} {l : Life} {x : K}

/-- No change dooms an object. -/
theorem Life.doomed_written (l : Life) (stored : Option K) (change : K → K) :
    (l.written stored change).doomed = l.doomed := by
  unfold Life.written
  split
  · split <;> rfl
  · rfl

/-- What a change asks for, if it asks for nothing new, is held as before. -/
theorem finalizers_of_same [Lawful K] {change : K → K}
    (same : Resource.same (proposed x change) x = true) :
    (metadata (change x)).finalizers = (metadata x).finalizers := by
  have kept : metadata (proposed x change) = metadata x := Lawful.metadata_of_same _ _ same
  rw [proposed, mapMetadata, metadata_withMetadata] at kept
  exact (congrArg Metadata.finalizers kept :)

/-- An object that is doomed is held. -/
theorem Life.Fits.held_of_doomed (fits : l.Fits x) (doomed : l.doomed = true) :
    (metadata x).finalizers ≠ [] :=
  fits.held (fits.deleting.trans doomed)

/-- An object is doomed and bare after a request if its deletion is requested while nothing holds
it, or if it is in deletion and a change leaves it bare. -/
theorem Life.Fits.doomed_iff (fits : l.Fits x) (r : Request K) :
    (l.answer (some x) r).doomed = true ∧ (metadata (r.wanted x)).finalizers = [] ↔
      (∃ now, r = .delete now r.key) ∧ (metadata x).finalizers = [] ∨
        ∃ change, r.change? = some change ∧ (metadata x).isDeleting = true ∧
          (metadata (change x)).finalizers = [] := by
  cases asks : r.change? with
  | some change =>
    have other (now : Timestamp) : r ≠ .delete now r.key := fun h => by
      rw [h] at asks
      cases asks
    rw [Life.answer_of_change asks, Life.doomed_written, Request.wanted_of_change asks,
      ← fits.deleting]
    simp [other]
  | none =>
    cases r with
    | update | modify => cases asks
    | create =>
      refine iff_of_false (fun h => fits.held_of_doomed h.1 h.2) ?_
      rintro (⟨⟨_, h⟩, -⟩ | ⟨_, h, -⟩) <;> cases h
    | delete now =>
      refine ⟨fun h => .inl ⟨⟨now, rfl⟩, h.2⟩, ?_⟩
      rintro (⟨-, bare⟩ | ⟨_, h, -⟩)
      · exact ⟨rfl, bare⟩
      · cases h

/-- **A request removes an object if it leaves it doomed and bare**, and only then. -/
theorem Effect.removes_iff [Lawful K] (keyed : t.Keyed) (e : t.Effect r reply t')
    (found : t.get? r.key = some x) (fits : l.Fits x) :
    t'.get? r.key = none ↔
      (l.answer (some x) r).doomed = true ∧ (metadata (r.wanted x)).finalizers = [] := by
  generalize left : t'.get? r.key = o
  cases e with
  | taken =>
    cases left.symm.trans found
    exact iff_of_false (Option.some_ne_none _) fun h => fits.held_of_doomed h.1 h.2
  | missing _ free | created free => cases free.symm.trans found
  | idle asks found' same =>
    cases found.symm.trans found'
    cases left.symm.trans found
    rw [Life.answer_of_change asks, Life.doomed_written, Request.wanted_of_change asks,
      finalizers_of_same same]
    exact iff_of_false (Option.some_ne_none _) fun h => fits.held_of_doomed h.1 h.2
  | changed asks found' _ stays =>
    cases found.symm.trans found'
    cases left?_of_told left ((key_changed ..).trans (keyed _ _ found))
    rw [Metadata.isDeleting, deleted_changed, finalizers_changed] at stays
    rw [Life.answer_of_change asks, Life.doomed_written, Request.wanted_of_change asks,
      ← fits.deleting]
    exact iff_of_false (Option.some_ne_none _) fun h => stays h.1 h.2
  | released asks found' _ deleting bare =>
    cases found.symm.trans found'
    cases left?_of_told left ((key_changed ..).trans (keyed _ _ found))
    rw [Metadata.isDeleting, deleted_changed] at deleting
    rw [finalizers_changed] at bare
    rw [Life.answer_of_change asks, Life.doomed_written, Request.wanted_of_change asks,
      ← fits.deleting]
    exact iff_of_true rfl ⟨deleting, bare⟩
  | removed found' bare =>
    cases found.symm.trans found'
    cases left?_of_told left (keyed _ _ found)
    exact iff_of_true rfl ⟨rfl, bare⟩
  | kept found' held =>
    cases found.symm.trans found'
    cases left.symm.trans found
    exact iff_of_false (Option.some_ne_none _) fun h => held h.2
  | marked found' held =>
    cases found.symm.trans found'
    cases left?_of_told left ((key_marked ..).trans (keyed _ _ found))
    exact iff_of_false (Option.some_ne_none _) fun h => held h.2

/-- A request takes an object away or leaves it the time at which its deletion was requested. -/
theorem Effect.keeps_deleted (keyed : t.Keyed) (e : t.Effect r reply t') {k : Key}
    {d : Timestamp} (found : t.get? k = some x) (since : (metadata x).deleted = some d) :
    t'.get? k = none ∨ ∃ y, t'.get? k = some y ∧ (metadata y).deleted = some d := by
  generalize left : t'.get? k = o
  by_cases own : k = r.key
  · subst own
    cases e with
    | taken | missing | idle | kept => exact .inr ⟨x, left.symm.trans found, since⟩
    | created free => cases free.symm.trans found
    | changed _ found' =>
      cases found.symm.trans found'
      cases left?_of_told left ((key_changed ..).trans (keyed _ _ found))
      exact .inr ⟨_, rfl, (deleted_changed ..).trans since⟩
    | released _ found' =>
      cases left?_of_told left ((key_changed ..).trans (keyed _ _ found'))
      exact .inl rfl
    | removed found' =>
      cases left?_of_told left (keyed _ _ found')
      exact .inl rfl
    | marked found' _ present =>
      cases found.symm.trans found'
      rw [Metadata.isDeleting, since] at present
      cases present
  · exact .inr ⟨x, left.symm.trans ((e.others keyed own).trans found), since⟩

/-- A key that is free can be used. -/
theorem Effect.create_of_free {now : Timestamp} (e : t.Effect (.create now x) reply t')
    (free : t.get? (key x) = none) : ∃ y, reply = .ok (some y) ∧ t'.get? (key x) = some y := by
  generalize left : t'.get? (key x) = o
  cases e with
  | taken found => cases free.symm.trans found
  | created =>
    cases left?_of_told left (key_stamped ..)
    exact ⟨_, rfl, rfl⟩
  | missing asks => exact absurd rfl (asks _ _)
  | idle asks | changed asks | released asks => cases asks

/-- There is nothing else to do with a key that is free. -/
theorem Effect.refused_of_free (e : t.Effect r reply t') (other : ∀ now x, r ≠ .create now x)
    (free : t.get? r.key = none) : reply = .error (.notFound t.kind r.key) ∧ t' = t := by
  cases e with
  | taken | created => exact absurd rfl (other _ _)
  | missing => exact ⟨rfl, rfl⟩
  | idle _ found | changed _ found | released _ found | removed found | kept found
  | marked found => cases free.symm.trans found

/-! ### Runs -/

/-- An act takes an object away exactly if it is a request for it that leaves it doomed and bare. -/
theorem Sound.removes_iff [Lawful K] (h : t.Sound) {k : Key} (found : t.get? k = some x)
    (fits : l.Fits x) (a : Act K) :
    (t.next a).get? k = none ↔ ∃ r, a = .request r ∧ r.key = k ∧
      (l.answer (some x) r).doomed = true ∧ (metadata (r.wanted x)).finalizers = [] := by
  rcases h.next_cases a k with ⟨r, rfl, rfl⟩ | same
  · refine ((t.effect r).removes_iff h.dated.keyed found fits).trans
      ⟨fun gone => ⟨r, rfl, rfl, gone⟩, ?_⟩
    rintro ⟨_, request, -, gone⟩
    cases request
    exact gone
  · -- The object stays, so the act is no request that leaves it doomed and bare.
    rw [same, found]
    refine iff_of_false (Option.some_ne_none _) ?_
    rintro ⟨r, rfl, rfl, gone⟩
    have taken := ((t.effect r).removes_iff h.dated.keyed found fits).mpr gone
    cases (same.symm.trans taken).symm.trans found

theorem Sound.keeps_deleted (h : t.Sound) (a : Act K) {k : Key} {d : Timestamp}
    (found : t.get? k = some x) (since : (metadata x).deleted = some d) :
    (t.next a).get? k = none ∨
      ∃ y, (t.next a).get? k = some y ∧ (metadata y).deleted = some d := by
  rcases h.next_cases a k with ⟨r, rfl, rfl⟩ | same
  · exact (t.effect r).keeps_deleted h.dated.keyed found since
  · exact .inr ⟨x, same.trans found, since⟩

/-- As long as an object stays, so does the time at which its deletion was requested. -/
theorem Sound.keeps_deleted_run (h : t.Sound) (later : List (Act K)) {k : Key} {d : Timestamp}
    (found : t.get? k = some x) (since : (metadata x).deleted = some d) :
    (∃ y, (t.run later).get? k = some y ∧ (metadata y).deleted = some d) ∨
      ∃ front back, later = front ++ back ∧ (t.run front).get? k = none := by
  induction later generalizing t x with
  | nil => exact .inl ⟨x, found, since⟩
  | cons a rest ih =>
    rcases h.keeps_deleted a found since with gone | ⟨y, found, since⟩
    · exact .inr ⟨[a], rest, rfl, gone⟩
    · refine (ih (h.next a) found since).imp id ?_
      rintro ⟨front, back, rfl, gone⟩
      exact ⟨a :: front, back, rfl, gone⟩

/-- **A tracker keeps an object until it is released**, after any run in which no object is
created that is already to be deleted. An object in deletion is one whose deletion was requested,
and it has a finalizer. It keeps the time of the request as long as it stays. It is removed by
the first request after which its deletion was requested and nothing holds it: by the request
for deletion, or by a change of an object in deletion that leaves no finalizer. To request its
deletion again does nothing. When it is gone, its key can be used for a new object, and every
other request for the key is told that there is none. -/
theorem keeps_until_released [Lawful K] (acts : List (Act K))
    (unmarked : ∀ a ∈ acts, a.Unmarked) :
    let t := (∅ : Tracker K).run acts
    let life k := (∅ : Tracker K).life k .new acts
    (∀ k x, t.get? k = some x → (metadata x).isDeleting = (life k).doomed ∧
        ((metadata x).isDeleting = true → (metadata x).finalizers ≠ [])) ∧
      (∀ k x d later, t.get? k = some x → (metadata x).deleted = some d →
        (∃ y, (t.run later).get? k = some y ∧ (metadata y).deleted = some d) ∨
          ∃ front back, later = front ++ back ∧ (t.run front).get? k = none) ∧
      (∀ k x a, t.get? k = some x →
        ((t.next a).get? k = none ↔ ∃ r, a = .request r ∧ r.key = k ∧
          ((life k).answer (some x) r).doomed = true ∧ (metadata (r.wanted x)).finalizers = []) ∧
        ((t.next a).get? k = none ↔
          (∃ now, a = .request (.delete now k)) ∧ (metadata x).finalizers = [] ∨
            ∃ r change, a = .request r ∧ r.key = k ∧ r.change? = some change ∧
              (metadata x).isDeleting = true ∧ (metadata (change x)).finalizers = [])) ∧
      (∀ k x now, t.get? k = some x → (metadata x).isDeleting = true →
        t.delete now k = (.ok (), t)) ∧
      ∀ k, t.get? k = none →
        (∀ now x, key x = k → ∃ y, t.reply (.create now x) = .ok (some y) ∧
          (t.answer (.create now x)).get? k = some y) ∧
        ∀ r, r.key = k → (∀ now x, r ≠ .create now x) →
          t.reply r = .error (.notFound t.kind k) ∧ t.answer r = t := by
  intro t life
  have sound : t.Sound := sound_empty.run acts
  have fits {k : Key} {x : K} (found : t.get? k = some x) : (life k).Fits x :=
    sound_empty.fits_run unmarked (fun _ found => by cases found) found
  refine ⟨fun k x found => ⟨(fits found).deleting, (fits found).held⟩,
    fun k x d later => sound.keeps_deleted_run later, fun k x a found => ?_,
    fun k x now found deleting => ?_, fun k free => ⟨?_, ?_⟩⟩
  · have removes := sound.removes_iff found (fits found) a
    refine ⟨removes, removes.trans ⟨?_, ?_⟩⟩
    · rintro ⟨r, rfl, rfl, gone⟩
      refine (((fits found).doomed_iff r).mp gone).imp ?_ ?_
      · rintro ⟨⟨now, h⟩, bare⟩
        exact ⟨⟨now, congrArg Act.request h⟩, bare⟩
      · rintro ⟨change, h⟩
        exact ⟨r, change, rfl, rfl, h⟩
    · rintro (⟨⟨now, rfl⟩, bare⟩ | ⟨r, change, rfl, rfl, h⟩)
      · exact ⟨_, rfl, rfl, rfl, bare⟩
      · exact ⟨r, rfl, rfl, ((fits found).doomed_iff r).mpr (.inr ⟨change, h⟩)⟩
  · have held := (fits found).held deleting
    simp only [delete, found, deleting, List.isEmpty_iff, held, if_false, if_true]
  · rintro now x rfl
    exact (t.effect (.create now x)).create_of_free free
  · rintro r rfl other
    exact (t.effect r).refused_of_free other free

/-- A worker is held, its deletion is requested, another finalizer is added, and its deletion is
requested again. It goes with its last finalizer. -/
theorem keeps_until_released_twice_held :
    let k : Key := ⟨"tenant", "pool"⟩
    let w := Trial.Fixture.withFinalizer "held" (Trial.Fixture.worker "tenant" "pool" default)
    let bare (w : Worker) : Worker := { w with metadata := { w.metadata with finalizers := [] } }
    let acts : List (Act Worker) :=
      [.request (.create default w), .watch 0, .request (.delete default k), .resync,
        .request (.modify k (Trial.Fixture.withFinalizer "late")), .request (.delete default k)]
    let t := (∅ : Tracker Worker).run acts
    (∀ a ∈ acts, a.Unmarked) ∧ t.version = 3 ∧ t.delete default k = (.ok (), t) ∧
      (∃ x, t.get? k = some x ∧ (metadata x).finalizers = ["held", "late"]) ∧
      (t.next (.request (.modify k bare))).get? k = none := by
  intro k w bare acts t
  have unmarked : ∀ a ∈ acts, a.Unmarked := by decide
  obtain ⟨-, -, removes, again, -⟩ := keeps_until_released acts unmarked
  obtain ⟨x, found⟩ : ∃ x, t.get? k = some x := Option.isSome_iff_exists.mp (by decide)
  have deleting : (t.get? k).map (fun x => (metadata x).isDeleting) = some true := by decide
  have held : (t.get? k).map (fun x => (metadata x).finalizers) = some ["held", "late"] := by
    decide
  rw [found] at deleting held
  have deleting : (metadata x).isDeleting = true := Option.some.inj deleting
  refine ⟨unmarked, by decide, again k x default found deleting, ⟨x, found, Option.some.inj held⟩,
    (removes k x _ found).2.mpr (.inr ⟨.modify k bare, bare, rfl, rfl, rfl, deleting, rfl⟩)⟩

end PoolControl.Tracker
