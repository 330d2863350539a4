import PoolControl.Proofs.Api.Life

/-! How a tracker numbers what is written.

Versions come from the tracker's counter. A write that is told takes the next one, so no two
objects share one, and a request that tells nothing leaves the tracker as it was. A change keeps
what identifies the object (`identity`). `numbers_writes` puts this together with the count of
generations. -/
namespace PoolControl

/-- What no change of an object touches. -/
def Metadata.identity (m : Metadata) :
    ObjectUid × String × String × Option Timestamp × Option Timestamp :=
  (m.uid, m.name, m.ns, m.created, m.deleted)

namespace Tracker

open Resource

variable {K : Type} [Resource K] {t t' : Tracker K} {r : Request K}
  {reply : Except ApiError (Option K)}

theorem identity_changed (v : Nat) (old : K) (change : K → K) :
    (metadata (changed v old change)).identity = (metadata old).identity := by
  rw [metadata_changed]
  rfl

/-- What stands after a change stood before, with the same identity. -/
theorem Effect.identity (keyed : t.Keyed) (e : t.Effect r reply t') {change : K → K}
    (asks : r.change? = some change) {k : Key} {y : K} (left : t'.get? k = some y) :
    ∃ x, t.get? k = some x ∧ (metadata y).identity = (metadata x).identity := by
  by_cases own : k = r.key
  · subst own
    cases e with
    | taken | created | removed | kept | marked => cases asks
    | missing | idle => exact ⟨y, left, rfl⟩
    | changed _ found =>
      cases left?_of_told left ((key_changed ..).trans (keyed _ _ found))
      exact ⟨_, found, identity_changed ..⟩
    | released _ found => cases left?_of_told left ((key_changed ..).trans (keyed _ _ found))
  · exact ⟨y, (e.others keyed own).symm.trans left, rfl⟩

/-- What a change is told has the identity of what was stored. -/
theorem Effect.identity_reply {y : K} (e : t.Effect r (.ok (some y)) t') {change : K → K}
    (asks : r.change? = some change) :
    ∃ x, t.get? r.key = some x ∧ (metadata y).identity = (metadata x).identity := by
  cases e with
  | created => cases asks
  | idle _ found => exact ⟨y, found, rfl⟩
  | changed _ found | released _ found => exact ⟨_, found, identity_changed ..⟩

/-- A creation or a change is told under the next version. -/
theorem Effect.numbers (e : t.Effect r reply t') :
    ∃ es, t.Tells t' es ∧ ∀ e ∈ es, e.kind = .created ∨ e.kind = .updated →
      t.version < Resource.version e.object ∧ Resource.version e.object = t'.version := by
  have commit {e : Event K} (new : Resource.version e.object = t.version + 1) :
      ∃ es, t.Tells (t.commit e) es ∧ ∀ e' ∈ es, e'.kind = .created ∨ e'.kind = .updated →
        t.version < Resource.version e'.object ∧
          Resource.version e'.object = (t.commit e).version := by
    refine ⟨[e], tells_publish t _ e, fun e' told _ => ?_⟩
    rw [List.mem_singleton.mp told, new]
    exact ⟨Nat.lt_succ_self _, rfl⟩
  cases e with
  | taken | missing | idle | kept => exact ⟨[], .refl t, nofun⟩
  | created => exact commit (version_stamped ..)
  | changed | released => exact commit (version_changed ..)
  | @removed _ _ old =>
    refine ⟨[.deleted old], tells_publish t t.version _, fun e' told kind => ?_⟩
    rw [List.mem_singleton.mp told] at kind
    rcases kind with kind | kind <;> cases kind
  | marked => exact commit (version_marked ..)

theorem Effect.silent_of_error {why : ApiError} (e : t.Effect r (.error why) t') : t' = t := by
  cases e <;> rfl

/-- A request after which the same is stored has told nothing either. -/
theorem Effect.silent_of_store (dated : t.Dated) (e : t.Effect r reply t')
    (same : t'.store = t.store) : t' = t := by
  have stands {v : Nat} {e : Event K} {k : Key}
      (same : ({ t with version := v }.publish e).store = t.store) (key : e.key = k) :
      e.left? = t.get? k := left?_of_told (congrArg (fun s : Store K => s.get? k) same) key
  -- A stored object is not the one that is told, which has a version of its own.
  have fresh {k : Key} {old new : K} (found : t.get? k = some old) (told : some new = t.get? k)
      (next : Resource.version new = t.version + 1) : False := by
    have below := dated.version k old found
    rw [← Option.some.inj (told.trans found), next] at below
    exact absurd below (Nat.not_succ_le_self _)
  cases e with
  | taken | missing | idle | kept => rfl
  | created free => cases (stands same (key_stamped ..)).trans free
  | changed _ found =>
    have told := stands same ((key_changed ..).trans (dated.keyed _ _ found))
    exact (fresh found told (version_changed ..)).elim
  | released _ found =>
    cases (stands same ((key_changed ..).trans (dated.keyed _ _ found))).trans found
  | removed found => cases (stands same (dated.keyed _ _ found)).trans found
  | marked found =>
    have told := stands same ((key_marked ..).trans (dated.keyed _ _ found))
    exact (fresh found told (version_marked ..)).elim

/-- A change to what is there already does nothing. -/
theorem Effect.idle_of_same (e : t.Effect r reply t') {change : K → K} {x : K}
    (asks : r.change? = some change) (found : t.get? r.key = some x)
    (same : Resource.same (proposed x change) x = true) : reply = .ok (some x) ∧ t' = t := by
  cases e with
  | taken | created | removed | kept | marked => cases asks
  | missing _ free => cases free.symm.trans found
  | idle _ found' =>
    cases found.symm.trans found'
    exact ⟨rfl, rfl⟩
  | changed asks' found' differs | released asks' found' differs =>
    cases found.symm.trans found'
    cases asks.symm.trans asks'
    cases differs.symm.trans same

/-! ### Runs -/

/-- Whether no two objects have the same version. -/
def Distinct (t : Tracker K) : Prop :=
  ∀ ⦃k k' x x'⦄, t.get? k = some x → t.get? k' = some x' →
    Resource.version x = Resource.version x' → k = k'

theorem Sound.distinct_next (h : t.Sound) (distinct : t.Distinct) (a : Act K) :
    (t.next a).Distinct := by
  -- Only the object that is asked for can be new, and then its version is.
  have own {k : Key} {x : K} (found : (t.next a).get? k = some x) :
      t.get? k = some x ∨ t.version < Resource.version x ∧ ∃ r, a = .request r ∧ r.key = k := by
    rcases h.next_cases a k with request | same
    · exact ((succeeds_next h.dated a).newer k x found).imp id fun new => ⟨new, request⟩
    · exact .inl (same.symm.trans found)
  intro k k' x x' found found' same
  rcases own found with old | ⟨new, r, request, rfl⟩ <;>
    rcases own found' with old' | ⟨new', r', request', rfl⟩
  · exact distinct old old' same
  · exact absurd same (Nat.lt_of_le_of_lt (h.dated.version _ _ old) new').ne
  · exact absurd same.symm (Nat.lt_of_le_of_lt (h.dated.version _ _ old') new).ne
  · cases request.symm.trans request'
    rfl

theorem Sound.distinct_run (h : t.Sound) (distinct : t.Distinct) (acts : List (Act K)) :
    (t.run acts).Distinct := by
  induction acts generalizing t with
  | nil => exact distinct
  | cons a rest ih => exact ih (h.next a) (h.distinct_next distinct a)

/-- Telling everything again is no write. -/
theorem version_resync (t : Tracker K) : t.resync.version = t.version := by
  unfold resync
  generalize t.list = xs
  induction xs generalizing t with
  | nil => rfl
  | cons x xs ih => exact ih (t.publish (.generic x))

/-- **A tracker numbers what is written**, after any run in which no object is created that is
already to be deleted. Stored objects have versions of their own, none above the counter, and
what is told next is created or changed under a larger one. The generation of an object is one,
and one more for each write that changed something besides metadata and status, and one more if
its deletion was requested. A change keeps uid, name, namespace and both times. A request that is
refused, or that asks for nothing new, leaves the store, the counter and all feeds as they were,
and telling everything again only tells. -/
theorem numbers_writes [Lawful K] (acts : List (Act K)) (unmarked : ∀ a ∈ acts, a.Unmarked) :
    let t := (∅ : Tracker K).run acts
    let life k := (∅ : Tracker K).life k .new acts
    ((t.list.map Resource.version).Nodup ∧ ∀ x ∈ t.list, Resource.version x ≤ t.version) ∧
      (∀ r, ∃ es, t.Tells (t.answer r) es ∧ ∀ e ∈ es, e.kind = .created ∨ e.kind = .updated →
        t.version < Resource.version e.object ∧
          Resource.version e.object = (t.answer r).version) ∧
      (∀ k x, t.get? k = some x →
        (metadata x).generation = 1 + (life k).changes + if (life k).doomed then 1 else 0) ∧
      (∀ r change, r.change? = some change →
        (∀ k y, (t.answer r).get? k = some y →
          ∃ x, t.get? k = some x ∧ (metadata y).identity = (metadata x).identity) ∧
        ∀ y, t.reply r = .ok (some y) →
          ∃ x, t.get? r.key = some x ∧ (metadata y).identity = (metadata x).identity) ∧
      (∀ r, (∃ why, t.reply r = .error why) ∨ (t.answer r).store = t.store → t.answer r = t) ∧
      (∀ r change x, r.change? = some change → t.get? r.key = some x →
        Resource.same (proposed x change) x = true →
          t.reply r = .ok (some x) ∧ t.answer r = t) ∧
      t.Tells t.resync (t.list.map .generic) ∧ t.resync.store = t.store ∧
        t.resync.version = t.version := by
  intro t life
  have sound : t.Sound := sound_empty.run acts
  have distinct : t.Distinct := sound_empty.distinct_run (fun _ _ _ _ found => by cases found) acts
  have stored {x : K} (listed : x ∈ t.list) : t.get? (key x) = some x :=
    sound.dated.keyed.get?_of_mem listed
  refine ⟨⟨?_, fun x listed => sound.dated.version _ x (stored listed)⟩,
    fun r => (t.effect r).numbers, fun k x found => ?_, fun r change asks =>
      ⟨fun k y => (t.effect r).identity sound.dated.keyed asks, fun y told => ?_⟩,
    fun r nothing => ?_, fun r change x asks found same =>
      (t.effect r).idle_of_same asks found same, sound.tells_resync.1, sound.tells_resync.2.2,
    version_resync t⟩
  · refine List.pairwise_map.mpr (sound.indexed.distinct.imp_of_mem fun listed listed' other => ?_)
    exact fun same => other (distinct (stored listed) (stored listed') same)
  · exact (sound_empty.fits_run unmarked (fun _ found => by cases found) found).generation
  · have effect := t.effect r
    rw [told] at effect
    exact effect.identity_reply asks
  · rcases nothing with ⟨why, refused⟩ | same
    · have effect := t.effect r
      rw [refused] at effect
      exact effect.silent_of_error
    · exact (t.effect r).silent_of_store sound.dated same

/-- A worker gets a pool and loses it again, an operation is recorded, what is there is written
once more, and its deletion is requested twice. -/
theorem numbers_writes_doomed :
    let k : Key := ⟨"tenant", "pool"⟩
    let w := Trial.Fixture.withFinalizer "held" (Trial.Fixture.worker "tenant" "pool" default)
    let acts : List (Act Worker) :=
      [.watch 0, .request (.create default w),
        .request (.modify k (Trial.Fixture.withPool "small" 1 3)),
        .request (.modify k (Trial.Fixture.withOperation .create .succeeded default)),
        .request (.update w), .resync, .request (.update w), .request (.delete default k),
        .request (.delete default k)]
    let t := (∅ : Tracker Worker).run acts
    (∀ a ∈ acts, a.Unmarked) ∧ (∅ : Tracker Worker).life k .new acts = ⟨2, true⟩ ∧
      t.version = 5 ∧ (t.list.map Resource.version).Nodup ∧
      ∃ x, t.get? k = some x ∧ (metadata x).generation = 4 := by
  intro k w acts t
  have unmarked : ∀ a ∈ acts, a.Unmarked := by decide
  have life : (∅ : Tracker Worker).life k .new acts = ⟨2, true⟩ := by decide
  obtain ⟨⟨distinct, -⟩, -, generation, -⟩ := numbers_writes acts unmarked
  obtain ⟨x, found⟩ : ∃ x, t.get? k = some x := Option.isSome_iff_exists.mp (by decide)
  have counted : (metadata x).generation = ((∅ : Tracker Worker).life k .new acts).generation :=
    generation k x found
  rw [life] at counted
  exact ⟨unmarked, life, by decide, distinct, x, found, counted⟩

end Tracker

end PoolControl
