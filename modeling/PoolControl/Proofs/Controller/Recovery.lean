import PoolControl.Proofs.Controller.Course
import PoolControl.Proofs.Routing.Triggers

/-! Retries that come, and retries that lapse.

A worker `errs` while an error is on record that calls for a retry. As long as one does, its key
is wanted, or a caller has it and leads it to a retry or to something else on record, or there is
an excuse (`Awaits`). The only attempt that leads nowhere is one that finds the cluster failed.
If clusters are watched the excuse is that the cluster is still failed, or that an event is under
way that will queue the key again. If not, nothing comes of the end of the failure, and the retry
has lapsed until somebody queues the key for another reason.

So where the controller has come to rest and the cluster is not failed, a worker errs exactly if
requests are ignored and its retry has lapsed (`errs_iff_lapsed`). -/
namespace PoolControl

namespace Deployment

variable {x : Charge} {d d' : Deployment} {k : Key} {lapsed lapsed' : Prop}

/-! ### Excuses -/

/-- Whether the cluster of a key is failed, or an event is under way that its phase changed. -/
def Blocked (d : Deployment) (k : Key) : Prop :=
  d.api.clusters.Fails k ∨
    ∃ e ∈ d.underwayClusters, e.Shifts ∧ e.object.metadata.name = k.ns

/-- Whether an event of a key is under way that is more than an update. -/
def Heralded (x : Charge) (d : Deployment) (k : Key) : Prop :=
  ∃ e ∈ d.underway, e.key = k ∧ e.old? = none ∧ e.object.spec.backend = x.backend

/-- Why the key of a worker that errs may be left alone. -/
def Excused (x : Charge) (d : Deployment) (k : Key) (lapsed : Prop) : Prop :=
  x.ignoreRequests = true ∧ lapsed ∨
    x.ignoreRequests = false ∧ (d.Blocked k ∨ d.Heralded x k)

/-- A key stays blocked or heralded where nothing happens to clusters and no event is dispatched. -/
theorem blocked_or_heralded (why : d.Blocked k ∨ d.Heralded x k)
    (clusters : d'.api.clusters = d.api.clusters) (arrived : d'.arrivedCluster = d.arrivedCluster)
    (more : ∀ e ∈ d.underway, e ∈ d'.underway) :
    d'.Blocked k ∨ d'.Heralded x k := by
  refine why.imp (fun blocked => ?_) fun ⟨e, told, rest⟩ => ⟨e, more e told, rest⟩
  unfold Blocked underwayClusters
  rwa [clusters, arrived]

/-- What is under way stays so when users or loops write. -/
theorem Sound.underway_answer (h : d.Sound x) {r : Tracker.Request Worker}
    (arrived : d'.arrived = d.arrived) (workers : d'.api.workers = d.api.workers.answer r) :
    ∀ e ∈ d.underway, e ∈ d'.underway := by
  intro e told
  unfold underway at told ⊢
  rw [arrived, workers]
  exact (List.mem_append.mp told).elim (List.mem_append_left _)
    fun waits => List.mem_append_right _ (h.workers.mem_pending_answer r waits)

/-! ### Lapses -/

/-- Whether the attempt on a key is about to find the cluster failed. -/
def Skips (d : Deployment) (k : Key) : Prop :=
  d.api.clusters.Fails k ∧
    ∃ c w, d.duties k = some (c, .visiting (.going (Provision.attend k w)))

/-- Whether the retry of a key has lapsed after an act, given whether it had before. It lapses when
an attempt finds the cluster failed while the worker errs, and comes back when a caller gets the
key. -/
def Lapses (x : Charge) (k : Key) (lapsed : Prop) (d : Deployment) (a : Act) : Prop :=
  (d.next x a).api.workers.Stays k ∧
    match a with
    | .serve deed => lapsed ∧ ∀ c, d.service.hands? deed ≠ some (c, k)
    | .move k' _ => lapsed ∨ k' = k ∧ d.Skips k ∧ d.api.workers.Errs k
    | _ => lapsed

/-- Whether the retry of a key has lapsed after a run. -/
def Lapsed (x : Charge) (k : Key) : Prop → Deployment → List Act → Prop
  | lapsed, _, [] => lapsed
  | lapsed, d, a :: rest => Lapsed x k (d.Lapses x k lapsed a) (d.next x a) rest

/-- Users leave the status to the loops, and every worker at the backend. -/
def Behaves (x : Charge) (d : Deployment) : Act → Prop
  | .worker r => d.api.workers.Modest x.backend r
  | _ => True

instance (x : Charge) (d : Deployment) : DecidablePred (d.Behaves x)
  | .worker r => inferInstanceAs (Decidable (d.api.workers.Modest x.backend r))
  | .cluster _ | .dependents .. | .report .. | .take | .takeCluster | .dispatch | .dispatchCluster
  | .serve _ | .move .. | .tell _ => .isTrue trivial

/-! ### What awaits a worker that errs -/

structure Awaits (x : Charge) (k : Key) (lapsed : Prop) (d : Deployment) : Prop where
  home : ∀ k w, d.api.workers.get? k = some w → w.spec.backend = x.backend
  course : ∀ c b, d.duties k = some (c, b) → b.Leads k (d.api.workers.Errs k) ∨ b.Rests
  awaited : d.api.workers.Errs k →
    d.service.Wants k ∨ (∃ c b, d.duties k = some (c, b) ∧ b.Leads k (d.api.workers.Errs k)) ∨
      d.Excused x k lapsed
  lost : lapsed → d.api.workers.Errs k ∧ ∀ c b, d.duties k = some (c, b) → b.Rests

theorem awaits_opened (x : Charge) (p : Backoff.Policy) {a : Api} (ha : a.Unwatched)
    (home : ∀ k w, a.workers.get? k = some w → w.spec.backend = x.backend) (k : Key) :
    (opened x p a).Awaits x k (a.workers.Errs k) where
  home := home
  course c b about := by cases about
  awaited errs := by
    refine .inr (.inr ?_)
    cases heeds : x.ignoreRequests with
    | true => exact .inl ⟨heeds, errs⟩
    | false =>
      obtain ⟨w, found, -⟩ := errs
      refine .inr ⟨heeds, .inr ⟨.created w, ?_, ?_, rfl, home k w found⟩⟩
      · have pending : (a.workers.watch 0).pending 0 = a.workers.list.map .created := by
          show (a.workers.feeds ++ [_]).flatMap _ = _
          rw [ha.unwatched.1]
          exact List.append_nil _
        have listed : w ∈ a.workers.list := OrderedMap.mem_values.mpr ⟨k, found⟩
        show Event.created w ∈ (a.workers.watch 0).pending 0
        rw [pending]
        exact List.mem_map_of_mem listed
      · exact ha.workers.dated.keyed k w found
  lost errs := ⟨errs, fun c b about => by cases about⟩

/-- What leaves the duties of a key alone, and lets nobody err who did not, keeps it awaited. -/
theorem Awaits.frame (h : d.Awaits x k lapsed)
    (home : ∀ k w, d'.api.workers.get? k = some w → w.spec.backend = x.backend)
    (duties : d'.duties k = d.duties k) (retains : d.api.workers.Retains d'.api.workers k)
    (wants : d.service.Wants k → d'.service.Wants k)
    (excuse : x.ignoreRequests = false → d.api.workers.Errs k → d.Blocked k ∨ d.Heralded x k →
      d'.service.Wants k ∨ d'.Blocked k ∨ d'.Heralded x k)
    (lapses : lapsed' ↔ d'.api.workers.Stays k ∧ lapsed) : d'.Awaits x k lapsed' where
  home := home
  course c b about :=
    (h.course c b (duties ▸ about)).imp_left fun leads => leads.mono retains.errs
  awaited errs := by
    have before := retains.errs errs
    rcases h.awaited before with wanted | ⟨c, b, about, leads⟩ | ⟨ignored, had⟩ | ⟨heeds, why⟩
    · exact .inl (wants wanted)
    · exact .inr (.inl ⟨c, b, duties.trans about, leads.mono retains.errs⟩)
    · exact .inr (.inr (.inl ⟨ignored, lapses.mpr ⟨errs.stays, had⟩⟩))
    · exact (excuse heeds before why).imp_right fun still => .inr (.inr ⟨heeds, still⟩)
  lost has := by
    obtain ⟨stays, had⟩ := lapses.mp has
    obtain ⟨errs, rests⟩ := h.lost had
    exact ⟨retains.still errs stays, fun c b about => rests c b (duties.symm.trans about)⟩

/-- The event of a worker is dispatched. If it is more than an update the key is queued, or the
cluster is failed. -/
theorem Awaits.dispatch (h : d.Awaits x k lapsed) (sound : d.Sound x) :
    (d.next x .dispatch).Awaits x k (d.Lapses x k lapsed .dispatch) := by
  unfold Lapses
  cases arrived : d.arrived with
  | none =>
    have same : d.next x .dispatch = d := by simp only [next, arrived]
    rw [same]
    exact h.frame h.home rfl (.of_same rfl) id (fun _ _ => .inr) Iff.rfl
  | some e =>
    generalize hd : d.next x .dispatch = d'
    simp only [next, arrived] at hd
    subst hd
    refine h.frame h.home rfl (.of_same rfl) ?_ (fun heeds _ why => ?_) Iff.rfl
    · exact fun wanted => (sound.wants_dispatch _ e k).mpr (.inl wanted)
    · rcases why with blocked | ⟨e', told, key, fresh, typed⟩
      · exact .inr (.inl blocked)
      · rw [underway, arrived] at told
        rcases List.mem_append.mp told with first | waits
        · obtain rfl := Option.mem_some.mp (Option.mem_toList.mp first)
          cases up : Predicate.clusterFailed d.api.caches.clusters e.object.metadata with
          | true =>
            have ns : e.object.metadata.ns = k.ns := congrArg Key.ns key
            obtain ⟨c, found, failed⟩ := (Predicate.clusterFailed_iff _).mp up
            exact .inr (.inl (.inl ⟨c, ns ▸ found, failed⟩))
          | false =>
            refine .inl ((sound.wants_dispatch _ e k).mpr (.inr ?_))
            refine (Wiring.mem_keys_workers e).mpr ⟨?_, key.symm⟩
            exact (Predicate.keeps_worker_iff e).mpr ⟨up, Predicate.keeps_trigger fresh, typed⟩
        · exact .inr (.inr ⟨e', waits, key, fresh, typed⟩)

/-- The event of a cluster is dispatched. If the phase changed the worker's key is queued, or the
cluster is failed. -/
theorem Awaits.dispatchCluster (h : d.Awaits x k lapsed) (sound : d.Sound x) :
    (d.next x .dispatchCluster).Awaits x k (d.Lapses x k lapsed .dispatchCluster) := by
  unfold Lapses
  cases arrived : d.arrivedCluster with
  | none =>
    have same : d.next x .dispatchCluster = d := by simp only [next, arrived]
    rw [same]
    exact h.frame h.home rfl (.of_same rfl) id (fun _ _ => .inr) Iff.rfl
  | some e =>
    generalize hd : d.next x .dispatchCluster = d'
    simp only [next, arrived] at hd
    subst hd
    refine h.frame h.home rfl (.of_same rfl) ?_ (fun heeds errs why => ?_) Iff.rfl
    · exact fun wanted => (sound.wants_dispatch _ e k).mpr (.inl wanted)
    · rcases why with (fails | ⟨e', told, shifts, named⟩) | heralded
      · exact .inr (.inl (.inl fails))
      · rw [underwayClusters, arrived] at told
        rcases List.mem_append.mp told with first | waits
        · obtain rfl := Option.mem_some.mp (Option.mem_toList.mp first)
          have keyed : ∀ k w, d.api.caches.workers.get? k = some w → w.key = k :=
            sound.workers.sound.dated.keyed
          obtain ⟨w, found, -⟩ := errs
          have ns : w.metadata.ns = k.ns := congrArg Key.ns (keyed k w found)
          cases up : Predicate.clusterFailed d.api.caches.clusters w.metadata with
          | true =>
            obtain ⟨c, found', failed⟩ := (Predicate.clusterFailed_iff _).mp up
            exact .inr (.inl (.inl ⟨c, ns ▸ found', failed⟩))
          | false =>
            refine .inl ((sound.wants_dispatch _ e k).mpr (.inr ?_))
            refine (Wiring.mem_keys_clusters keyed e).mpr
              ⟨(Predicate.keeps_clusterChanges _ e).mpr shifts, named.symm, w, found, ?_⟩
            exact (Predicate.keepsObject_worker_iff w).mpr ⟨up, h.home k w found⟩
        · exact .inr (.inl (.inr ⟨e', waits, shifts, named⟩))
      · exact .inr (.inr heralded)

/-- A caller that gets the key begins an attempt, which leads somewhere. -/
theorem Awaits.serve (h : d.Awaits x k lapsed) (sound : d.Sound x) {a : Deed Key}
    (allowed : d.Allows (.serve a)) :
    (d.next x (.serve a)).Awaits x k (d.Lapses x k lapsed (.serve a)) := by
  by_cases handed : ∃ c, d.service.hands? a = some (c, k)
  · obtain ⟨c, handed⟩ := handed
    have began : (d.next x (.serve a)).duties k =
        some (c, .visiting (.going (Provision.plan k))) := by
      show begun d.duties (d.service.hands? a) k = _
      rw [handed]
      exact Function.update_self ..
    refine ⟨h.home, fun c' b about => ?_, fun _ => .inr (.inl ⟨c, _, began, .begun⟩),
      fun has => absurd handed (has.2.2 c)⟩
    cases began.symm.trans about
    exact .inl .begun
  · have others : ∀ c, d.service.hands? a ≠ some (c, k) := fun c hc => handed ⟨c, hc⟩
    refine h.frame h.home ?_ (.of_same rfl) ?_ (fun _ _ => .inr)
      (and_congr_right fun _ => and_iff_left others)
    · rcases begun_cases d.duties (d.service.hands? a) k with same | ⟨c, hands, -⟩
      · exact same
      · exact absurd hands (others c)
    · exact fun wanted => (sound.wants_serve allowed wanted).resolve_right handed

/-- A write of a loop that is no record of an operation on the key. -/
theorem Awaits.write (h : d.Awaits x k lapsed) (sound : d.Sound x) {w : Write}
    (retains : d.api.workers.Retains (d.api.write w).2.workers k) (api : d'.api = (d.api.write w).2)
    (arrived : d'.arrived = d.arrived) (arrivedCluster : d'.arrivedCluster = d.arrivedCluster)
    (service : d'.service = d.service) (duties : d'.duties k = d.duties k)
    (lapses : lapsed' ↔ d'.api.workers.Stays k ∧ lapsed) : d'.Awaits x k lapsed' := by
  refine h.frame (fun k w stored => ?_) duties (api ▸ retains) ?_ (fun heeds _ why => .inr ?_)
    lapses
  · obtain ⟨old, found, spec⟩ := Api.spec_write sound.workers.sound.dated.keyed (api ▸ stored)
    rw [spec]
    exact h.home k old found
  · rw [service]
    exact id
  · refine blocked_or_heralded why ?_ arrivedCluster
      (sound.underway_answer (r := .modify w.key w.change) arrived ?_)
    · rw [api, Api.clusters_write]
    · rw [api]
      exact Api.workers_write_answer d.api w

/-- The attempt on another key takes its next step. -/
theorem Awaits.move_other (h : d.Awaits x k lapsed) (sound : d.Sound x) {k' : Key} (other : k ≠ k')
    {c : Nat} {stage : AttemptState} (under : d.duties k' = some (c, .visiting stage)) (cue : Cue)
    (lapses : lapsed' ↔ (d.moved k' c stage cue).api.workers.Stays k ∧ lapsed) :
    (d.moved k' c stage cue).Awaits x k lapsed' := by
  have keyed := sound.workers.sound.dated.keyed
  have duties : (d.moved k' c stage cue).duties k = d.duties k := by
    rw [duties_moved, if_neg other]
  obtain ⟨st, obeys⟩ := sound.obeys k' c stage under
  obtain ⟨notes, moves⟩ := stage.moves_next k' d.api cue
  have same := (moves.others obeys keyed other).1
  rcases stage.next_api d.api cue with he | ⟨w, next, -, he⟩
  · refine h.frame (fun k w stored => ?_) duties (.of_same same) id
      (fun heeds _ why => .inr ?_) lapses
    · rw [moved, he] at stored
      exact h.home k w stored
    · refine blocked_or_heralded why ?_ rfl ?_
      · rw [moved, he]
      · rw [underway, underway, moved, he]
        exact fun _ => id
  · refine h.write sound ?_ he rfl rfl rfl duties lapses
    rw [← he]
    exact .of_same same

/-- No attempt changes where a worker belongs. -/
theorem Awaits.home_moved (h : d.Awaits x k lapsed) (sound : d.Sound x) (k' : Key) (c : Nat)
    (stage : AttemptState) (cue : Cue) :
    ∀ k w, (d.moved k' c stage cue).api.workers.get? k = some w → w.spec.backend = x.backend := by
  intro k w stored
  rcases stage.next_api d.api cue with he | ⟨w', -, -, he⟩ <;> rw [moved, he] at stored
  · exact h.home k w stored
  · obtain ⟨old, found, spec⟩ := Api.spec_write sound.workers.sound.dated.keyed stored
    rw [spec]
    exact h.home k old found

/-- Where the retry has lapsed, the attempt is over and leaves the worker as it is. -/
theorem Awaits.rests_of_lapsed (h : d.Awaits x k lapsed) {c : Nat} {stage : AttemptState}
    (under : d.duties k = some (c, .visiting stage)) (cue : Cue)
    (had : lapsed ∨ d.Skips k ∧ d.api.workers.Errs k) :
    (stage.next d.api cue).1.Rests ∧ (stage.next d.api cue).2 = d.api ∧ d.api.workers.Errs k := by
  rcases had with had | ⟨⟨fails, c', w, skips⟩, errs⟩
  · obtain ⟨errs, rests⟩ := h.lost had
    obtain ⟨rests, same⟩ := (rests c _ under).next d.api cue
    exact ⟨rests, same, errs⟩
  · cases under.symm.trans skips
    obtain ⟨rests, same⟩ := AttemptState.next_attend fails w cue
    exact ⟨rests, same, errs⟩

/-- What excuses a worker still does if the attempt on it leaves everything as it is. -/
theorem excused_moved (had : d.Excused x k lapsed) {c : Nat} {stage : AttemptState} {cue : Cue}
    (same : (stage.next d.api cue).2 = d.api) (lapses : lapsed → lapsed') :
    (d.moved k c stage cue).Excused x k lapsed' := by
  rcases had with ⟨ignored, had⟩ | ⟨heeds, why⟩
  · exact .inl ⟨ignored, lapses had⟩
  · refine .inr ⟨heeds, blocked_or_heralded why ?_ rfl ?_⟩
    · rw [moved, same]
    · rw [underway, underway, moved, same]
      exact fun _ => id

/-- The attempt on the key takes its next step. It leads on, or the worker is settled, or the
cluster is failed. -/
theorem Awaits.move_own (h : d.Awaits x k lapsed) (sound : d.Sound x) {c : Nat}
    {stage : AttemptState}
    (under : d.duties k = some (c, .visiting stage)) (cue : Cue)
    (lapses : lapsed' ↔ (d.moved k c stage cue).api.workers.Stays k ∧
      (lapsed ∨ d.Skips k ∧ d.api.workers.Errs k)) :
    (d.moved k c stage cue).Awaits x k lapsed' := by
  have keyed := sound.workers.sound.dated.keyed
  have about : (d.moved k c stage cue).duties k = some (c, (stage.next d.api cue).1) := by
    rw [duties_moved, if_pos rfl]
  refine ⟨h.home_moved sound k c stage cue, fun c' b about' => ?_, fun errs => ?_, fun has => ?_⟩
  · cases about.symm.trans about'
    rcases h.course c _ under with leads | rests
    · exact (leads.next keyed cue).imp_right And.left
    · exact .inr (rests.next d.api cue).1
  · have settled (same : (stage.next d.api cue).2 = d.api) : d.api.workers.Errs k := by
      rw [moved, same] at errs
      exact errs
    rcases h.course c _ under with leads | rests
    · rcases leads.next keyed cue with on | ⟨-, same, skipped⟩
      · exact .inr (.inl ⟨c, _, about, on⟩)
      · obtain ⟨fails, w, rfl⟩ := skipped (settled same)
        refine .inr (.inr ?_)
        cases heeds : x.ignoreRequests with
        | true =>
          exact .inl ⟨heeds, lapses.mpr ⟨errs.stays, .inr ⟨⟨fails, c, w, under⟩, settled same⟩⟩⟩
        | false =>
          refine .inr ⟨heeds, .inl (.inl ?_)⟩
          rw [moved, same]
          exact fails
    · have same := (rests.next d.api cue).2
      rcases h.awaited (settled same) with wanted | ⟨c', b, about', leads⟩ | had
      · exact .inl wanted
      · cases under.symm.trans about'
        exact absurd (settled same) (leads.not_errs_of_rests rests)
      · exact .inr (.inr (excused_moved had same fun had => lapses.mpr ⟨errs.stays, .inl had⟩))
  · obtain ⟨rests, same, errs⟩ := h.rests_of_lapsed under cue (lapses.mp has).2
    refine ⟨?_, fun c' b about' => ?_⟩
    · rw [moved, same]
      exact errs
    · cases about.symm.trans about'
      exact rests

/-- The caller that has the key tells the queue what comes next: another attempt, or nothing. -/
theorem Awaits.tell_own (h : d.Awaits x k lapsed) (sound : d.Sound x) {c : Nat} {what : Closing}
    {todo : List Closing} (about : d.duties k = some (c, .closing (what :: todo)))
    (lapses : lapsed' ↔ d.api.workers.Stays k ∧ lapsed) :
    (d.told k c what todo).Awaits x k lapsed' := by
  have rests : ∀ c' b, (d.told k c what todo).duties k = some (c', b) → b.Rests := by
    intro c' b about'
    rw [duties_told, if_pos rfl] at about'
    by_cases last : what = .done
    · subst last
      cases about'
    · rcases d.service.left_cases k c last todo with ⟨he, -⟩ | ⟨he, -⟩
      · cases he.symm.trans about'
        exact .closing
      · cases he.symm.trans about'
        exact .crashed
  refine ⟨h.home, fun c' b about' => .inr (rests c' b about'), fun errs => ?_, fun has => ?_⟩
  · rcases h.awaited errs with wanted | ⟨c', b, about', leads⟩ | ⟨ignored, had⟩ | ⟨heeds, why⟩
    · exact .inl ((sound.wants_told about k).mpr (.inl wanted))
    · cases about.symm.trans about'
      cases leads
      have more : Closing.addRateLimited ≠ .done := nofun
      rcases d.service.left_cases k c more todo with ⟨-, ok⟩ | ⟨he, -⟩
      · exact .inl ((sound.wants_told about k).mpr (.inr (if_pos ok)))
      · exact .inr (.inl ⟨c, .crashed, by rw [duties_told, if_pos rfl, he], .crashed⟩)
    · exact .inr (.inr (.inl ⟨ignored, lapses.mpr ⟨errs.stays, had⟩⟩))
    · exact .inr (.inr (.inr ⟨heeds, why⟩))
  · exact ⟨(h.lost (lapses.mp has).2).1, rests⟩

/-- **Whatever happens, a worker that errs is awaited or excused.** -/
theorem Awaits.next (h : d.Awaits x k lapsed) (sound : d.Sound x) {a : Act} (allowed : d.Allows a)
    (behaves : d.Behaves x a) : (d.next x a).Awaits x k (d.Lapses x k lapsed a) := by
  have keyed := sound.workers.sound.dated.keyed
  cases a with
  | worker r =>
    refine h.frame (Tracker.backend_answer behaves h.home) rfl
      (Tracker.retains_answer keyed behaves) id (fun heeds _ why => .inr ?_) Iff.rfl
    exact blocked_or_heralded why rfl rfl (sound.underway_answer rfl rfl)
  | cluster r =>
    refine h.frame h.home rfl (.of_same rfl) id (fun heeds _ why => .inr ?_) Iff.rfl
    refine why.imp_left fun blocked => ?_
    have fed := sound.watched heeds
    rcases blocked with fails | ⟨e, told, shifts, named⟩
    · exact (fed.fails_answer r fails).imp_right fun ⟨e, waits, rest⟩ =>
        ⟨e, List.mem_append_right _ waits, rest⟩
    · refine .inr ⟨e, (List.mem_append.mp told).elim (List.mem_append_left _) fun waits => ?_,
        shifts, named⟩
      exact List.mem_append_right _ (fed.mem_pending_answer r waits)
  | dependents =>
    exact h.frame h.home rfl (.of_same rfl) id (fun _ _ => .inr) Iff.rfl
  | report k' s =>
    refine h.write sound (Api.retains_write keyed (fun _ _ same => ?_) k) rfl rfl rfl rfl rfl
      Iff.rfl
    cases same
  | take =>
    refine h.frame h.home rfl (.of_same rfl) id (fun heeds _ why => .inr ?_) Iff.rfl
    refine blocked_or_heralded why rfl rfl ?_
    rw [sound.underway_take (Option.isNone_iff_eq_none.mp allowed)]
    exact fun _ => id
  | takeCluster =>
    refine h.frame h.home rfl (.of_same rfl) id (fun heeds _ why => .inr ?_) Iff.rfl
    refine why.imp_left (Or.imp_right fun told => ?_)
    rwa [sound.underway_takeCluster heeds (Option.isNone_iff_eq_none.mp allowed)]
  | dispatch => exact h.dispatch sound
  | dispatchCluster => exact h.dispatchCluster sound
  | serve a => exact h.serve sound allowed
  | move k' cue =>
    unfold Lapses
    rcases move_cases x d k' cue with ⟨idle, he⟩ | ⟨c, stage, under, he⟩
    · rw [he]
      refine h.frame h.home rfl (.of_same rfl) id (fun _ _ => .inr) (and_congr_right fun _ => ?_)
      refine or_iff_left ?_
      rintro ⟨rfl, ⟨-, c, w, under⟩, -⟩
      exact idle c _ under
    · rw [he]
      by_cases hk : k' = k
      · subst hk
        refine h.move_own sound under cue (and_congr_right fun _ => or_congr_right ?_)
        exact and_iff_right rfl
      · refine h.move_other sound (Ne.symm hk) under cue (and_congr_right fun _ => ?_)
        exact or_iff_left fun own => hk own.1
  | tell k' =>
    unfold Lapses
    rcases tell_cases x d k' with he | ⟨c, what, todo, about, he⟩
    · rw [he]
      exact h.frame h.home rfl (.of_same rfl) id (fun _ _ => .inr) Iff.rfl
    · rw [he]
      by_cases hk : k = k'
      · subst hk
        exact h.tell_own sound about Iff.rfl
      · refine h.frame h.home ?_ (.of_same rfl) ?_ (fun _ _ => .inr) Iff.rfl
        · rw [duties_told, if_neg hk]
        · exact fun wanted => (sound.wants_told about k).mpr (.inl wanted)

theorem Awaits.run (h : d.Awaits x k lapsed) (sound : d.Sound x) {l : List Act}
    (lawful : d.Lawful x l) (behaved : d.Throughout x (Behaves x) l) :
    (d.run x l).Awaits x k (d.Lapsed x k lapsed l) := by
  induction l generalizing d lapsed with
  | nil => exact h
  | cons a rest ih =>
    exact ih (h.next sound lawful.1 behaved.1) (sound.next lawful.1) lawful.2 behaved.2

/-! ### At rest -/

/-- No event is under way, and no key is in line, in hand or to come. -/
def Quiet (d : Deployment) : Prop :=
  d.underway = [] ∧ d.underwayClusters = [] ∧ d.service.queue.ready = [] ∧ d.service.held = [] ∧
    d.service.queue.waiting = ∅ ∧ d.service.queue.due = []

instance (d : Deployment) : Decidable d.Quiet := by unfold Quiet; infer_instance

/-- At rest a worker errs only if there is an excuse. -/
theorem Awaits.excused (h : d.Awaits x k lapsed) (sound : d.Sound x) (quiet : d.Quiet)
    (errs : d.api.workers.Errs k) : d.Excused x k lapsed := by
  obtain ⟨-, -, ready, held, waiting, due⟩ := quiet
  rcases h.awaited errs with wanted | ⟨c, b, about, -⟩ | excused
  · exact absurd wanted
      (Service.not_wants_of_empty sound.orderly sound.open_ ready held waiting due k)
  · have had := (sound.holds c k).mpr ⟨b, about⟩
    rw [held] at had
    cases had
  · exact excused

/-- **Which retries never come.** Users leave the status to the loops and every worker at the
backend. Once the controller has come to rest, a worker that is not in deletion and whose cluster
is there and not failed has an error on record that calls for a retry exactly if requests are
ignored, so that clusters are not watched, and the retry has lapsed: an attempt found the cluster
failed, or the worker erred from the start, and no caller got the key since. -/
theorem errs_iff_lapsed (x : Charge) (p : Backoff.Policy) {a : Api} (ha : a.Unwatched)
    (home : ∀ k w, a.workers.get? k = some w → w.spec.backend = x.backend) {l : List Act}
    (lawful : (opened x p a).Lawful x l) (behaved : (opened x p a).Throughout x (Behaves x) l)
    (ends : (opened x p a).run x l = d) (quiet : d.Quiet) {w : Worker} {c : Cluster}
    (stored : d.api.workers.get? k = some w) (present : w.metadata.isDeleting = false)
    (clustered : d.api.clusters.get? (Cluster.keyOf k.ns) = some c)
    (healthy : c.isFailed = false) :
    (∃ o, w.status.lastOperation = some o ∧ o.state = .error) ↔
      x.ignoreRequests = true ∧ (opened x p a).Lapsed x k (a.workers.Errs k) l := by
  have opened_ := sound_opened x p ha
  have awaits := (awaits_opened x p ha home k).run opened_ lawful behaved
  have sound := opened_.run lawful
  rw [ends] at awaits sound
  rw [← Worker.errs_iff present, ← Tracker.errs_iff_of_found stored]
  constructor
  · intro errs
    rcases awaits.excused sound quiet errs with lapsed | ⟨-, why⟩
    · exact lapsed
    · obtain ⟨workers, clusters, -⟩ := quiet
      rcases why with (⟨c', found, failed⟩ | ⟨e, told, -⟩) | ⟨e, told, -⟩
      · obtain rfl := Option.some.inj (clustered.symm.trans found)
        cases healthy.symm.trans failed
      · rw [clusters] at told
        cases told
      · rw [workers] at told
        cases told
  · rintro ⟨-, lapsed⟩
    exact (awaits.lost lapsed).1

/-! ### A retry that lapses -/

/-- A controller of the local backend that ignores requests. -/
def deaf : Charge := ⟨true, "local"⟩

/-- A controller of the local backend that heeds requests. -/
def attentive : Charge := ⟨false, "local"⟩

/-- The worker that the runs below are about. -/
def ailing : Worker := Trial.Fixture.worker "tenant" "pool" default

/-- A controller that was just started on the worker in a healthy cluster. -/
def ward (x : Charge) : Deployment := opened x default (Site.founded ailing).api

/-- An attempt fails for now, and then the cluster fails. The retry finds it failed and leaves the
worker as it is. The cluster recovers, and the events of the worker are dispatched. -/
def relapse : List Act :=
  [.take, .dispatch, .serve (.ask 0)] ++
    List.replicate 13 (.move ailing.key ⟨default, none, some (.error (.retryable "busy"))⟩) ++
    [.tell ailing.key, .tell ailing.key,
      .cluster (.modify (Cluster.keyOf "tenant") fun c => { c with status := ⟨.failed⟩ }),
      .serve (.pass 100000000), .serve (.expire ailing.key 100000000),
      .serve (.deliver ailing.key), .serve (.ask 0)] ++
    List.replicate 3 (.move ailing.key ⟨default, none, none⟩) ++
    [.tell ailing.key, .tell ailing.key,
      .cluster (.modify (Cluster.keyOf "tenant") fun c => { c with status := ⟨.healthy⟩ }),
      .take, .dispatch, .take, .dispatch, .take, .dispatch]

/-- Then the events of the cluster are dispatched, too, and another attempt succeeds. -/
def recovering : List Act :=
  relapse ++
    [.takeCluster, .dispatchCluster, .takeCluster, .dispatchCluster, .takeCluster,
      .dispatchCluster, .serve (.ask 0)] ++
    List.replicate 8 (.move ailing.key ⟨default, none, some (.ok none)⟩) ++
    [.tell ailing.key, .tell ailing.key, .take, .dispatch]

/-- Where requests are ignored the retry has lapsed. Where they are not, nothing is left of the
error once the events of the cluster were dispatched. -/
theorem errs_iff_lapsed_tenant :
    (∃ d, (ward deaf).Lawful deaf relapse ∧ (ward deaf).Throughout deaf (Behaves deaf) relapse ∧
      (ward deaf).run deaf relapse = d ∧ d.Quiet ∧
      (ward deaf).Lapsed deaf ailing.key ((Site.founded ailing).api.workers.Errs ailing.key)
        relapse) ∧
    ∃ d, (ward attentive).Lawful attentive recovering ∧
      (ward attentive).Throughout attentive (Behaves attentive) recovering ∧
      (ward attentive).run attentive recovering = d ∧ d.Quiet ∧
      ∃ w, d.api.workers.get? ailing.key = some w ∧ w.metadata.isDeleting = false ∧
        ¬ ∃ o, w.status.lastOperation = some o ∧ o.state = .error := by
  have unwatched := Site.unwatched_founded ailing
  have home : ∀ k w, (Site.founded ailing).api.workers.get? k = some w →
      w.spec.backend = "local" := by
    intro k w stored
    have listed : ∀ w ∈ (Site.founded ailing).api.workers.list, w.spec.backend = "local" := by
      decide
    exact listed w (OrderedMap.mem_values.mpr ⟨k, stored⟩)
  constructor
  · have lawful : (ward deaf).Lawful deaf relapse := by decide +kernel
    have behaved : (ward deaf).Throughout deaf (Behaves deaf) relapse := by decide +kernel
    have quiet : ((ward deaf).run deaf relapse).Quiet := by decide +kernel
    have shown : (((ward deaf).run deaf relapse).api.workers.get? ailing.key).map (fun w =>
        (w.metadata.isDeleting, w.status.lastOperation.map (·.state))) =
          some (false, some .error) := by decide +kernel
    have up : (((ward deaf).run deaf relapse).api.clusters.get? (Cluster.keyOf ailing.key.ns)).map
        Cluster.isFailed = some false := by decide +kernel
    generalize ends : (ward deaf).run deaf relapse = d at quiet shown up
    obtain ⟨w, stored, shown⟩ := Option.map_eq_some_iff.mp shown
    obtain ⟨present, state⟩ := Prod.mk.inj shown
    obtain ⟨o, recorded, state⟩ := Option.map_eq_some_iff.mp state
    obtain ⟨c, clustered, healthy⟩ := Option.map_eq_some_iff.mp up
    have lapsed := (errs_iff_lapsed deaf default unwatched home lawful behaved ends quiet stored
      present clustered healthy).mp ⟨o, recorded, state⟩
    exact ⟨d, lawful, behaved, rfl, quiet, lapsed.2⟩
  · have lawful : (ward attentive).Lawful attentive recovering := by decide +kernel
    have behaved : (ward attentive).Throughout attentive (Behaves attentive) recovering := by
      decide +kernel
    have quiet : ((ward attentive).run attentive recovering).Quiet := by decide +kernel
    have shown : (((ward attentive).run attentive recovering).api.workers.get? ailing.key).map
        (·.metadata.isDeleting) = some false := by decide +kernel
    have up : (((ward attentive).run attentive recovering).api.clusters.get?
        (Cluster.keyOf ailing.key.ns)).map Cluster.isFailed = some false := by decide +kernel
    generalize ends : (ward attentive).run attentive recovering = d at quiet shown up
    obtain ⟨w, stored, present⟩ := Option.map_eq_some_iff.mp shown
    obtain ⟨c, clustered, healthy⟩ := Option.map_eq_some_iff.mp up
    refine ⟨d, lawful, behaved, rfl, quiet, w, stored, present, fun errs => ?_⟩
    have lapsed := (errs_iff_lapsed attentive default unwatched home lawful behaved ends quiet
      stored present clustered healthy).mp errs
    cases lapsed.1

/-- Where requests are ignored, the controller comes to rest with the cluster up again and an
error on record that calls for a retry. -/
theorem retry_lapses :
    (ward deaf).Lawful deaf relapse ∧ (ward deaf).Throughout deaf (Behaves deaf) relapse ∧
      ((ward deaf).run deaf relapse).Quiet ∧
      (((ward deaf).run deaf relapse).api.clusters.get? (Cluster.keyOf ailing.key.ns)).map
        Cluster.isFailed = some false ∧
      (((ward deaf).run deaf relapse).api.workers.get? ailing.key).map (fun w =>
        (w.metadata.isDeleting, w.spec.backend, w.status.lastOperation.map (·.state))) =
          some (false, "local", some .error) := by
  decide +kernel

end Deployment

end PoolControl
