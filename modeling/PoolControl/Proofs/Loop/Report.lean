import PoolControl.Loop.Report
import PoolControl.Proofs.Loop.Echo

/-! What a report says.

A worker owns the objects of its namespace that refer to it by name and, where they give a
uid, by the uid it has now (`Owns`). The loop finds them through the index of a store; a scan
of the whole store finds the same (`dependents_eq`), whatever requests made the store. What
a report shows of a dependent is its name and a few fields, so reports agree as soon as the
dependents show the same under every key (`aggregate_congr`).

`reports` follows an attempt that nobody disturbs and that succeeds, though writes may be
lost. It may only change the state of its worker, to what the scan makes of the dependents,
and another attempt right after it rests. -/
namespace PoolControl

/-! ### Histories of an API -/

namespace Api

/-- What may happen to an API. -/
inductive Act
  | worker (a : Tracker.Act Worker)
  | machineSet (a : Tracker.Act MachineSet)
  | machine (a : Tracker.Act Machine)
  | cluster (a : Tracker.Act Cluster)

/-- What an act makes of an API. -/
def next (a : Api) : Act → Api
  | .worker x => { a with workers := a.workers.next x }
  | .machineSet x => { a with machineSets := a.machineSets.next x }
  | .machine x => { a with machines := a.machines.next x }
  | .cluster x => { a with clusters := a.clusters.next x }

def run (a : Api) : List Act → Api
  | [] => a
  | x :: rest => run (a.next x) rest

/-- An API whose trackers are in order. -/
structure Sound (a : Api) : Prop where
  workers : a.workers.Sound
  machineSets : a.machineSets.Sound
  machines : a.machines.Sound
  clusters : a.clusters.Sound

theorem sound_empty : empty.Sound :=
  ⟨Tracker.sound_empty, Tracker.sound_empty, Tracker.sound_empty, Tracker.sound_empty⟩

variable {a : Api}

theorem Sound.next (h : a.Sound) (x : Act) : (a.next x).Sound := by
  cases x with
  | worker x => exact { h with workers := h.workers.next x }
  | machineSet x => exact { h with machineSets := h.machineSets.next x }
  | machine x => exact { h with machines := h.machines.next x }
  | cluster x => exact { h with clusters := h.clusters.next x }

theorem Sound.run (h : a.Sound) (l : List Act) : (a.run l).Sound := by
  induction l generalizing a with
  | nil => exact h
  | cons x rest ih => exact ih (h.next x)

end Api

/-! ### Dependents -/

/-- Whether a worker owns an object: it is of the same namespace and refers to the worker by
name, and by no other uid. -/
def Worker.Owns (w : Worker) (m : Metadata) : Prop :=
  m.ns = w.metadata.ns ∧ ∃ r ∈ m.owners,
    r.kind = Kind.worker.name ∧ r.name = w.metadata.name ∧ ∀ u ∈ r.uid, u = w.metadata.uid

instance (w : Worker) (m : Metadata) : Decidable (w.Owns m) :=
  inferInstanceAs (Decidable (_ ∧ ∃ r ∈ m.owners, _))

/-- What a worker owns depends on its key and its uid. -/
theorem Worker.owns_congr {w w' : Worker} (key : w.key = w'.key)
    (uid : w.metadata.uid = w'.metadata.uid) (m : Metadata) : w.Owns m ↔ w'.Owns m := by
  have ns : w.metadata.ns = w'.metadata.ns := congrArg Key.ns key
  have name : w.metadata.name = w'.metadata.name := congrArg Key.name key
  rw [Owns, Owns, ns, name, uid]

namespace Report

variable {K : Type} [Resource K] {s s' : Store K} {w w' : Worker}

theorem refersTo_iff {m : Metadata} : refersTo w m = true ↔
    ∃ r ∈ m.owners, r.kind = Kind.worker.name ∧ r.name = w.metadata.name ∧
      ∀ u ∈ r.uid, u = w.metadata.uid := by
  simp only [refersTo, Metadata.ownersOfKind, List.any_filter, List.any_eq_true,
    Bool.and_eq_true, beq_iff_eq]
  refine exists_congr fun r => and_congr_right fun _ => and_congr_right fun _ =>
    and_congr_right fun _ => ?_
  cases r.uid <;> simp

/-- **The index leads to the objects that a worker owns**, and to no others. -/
theorem dependents_eq (h : s.Indexed) (w : Worker) :
    dependents s w.key w = s.list.filter fun x => w.Owns (Resource.metadata x) := by
  rw [dependents, h.ownedBy_eq, List.filter_filter]
  refine List.filter_congr fun x _ => ?_
  rw [← Bool.decide_coe (refersTo w _), ← Bool.decide_and]
  refine decide_eq_decide.mpr ?_
  rw [refersTo_iff, Worker.Owns]
  refine and_comm.trans ⟨?_, ?_⟩
  · rintro ⟨entered, refers⟩
    obtain ⟨r, -, he⟩ := List.mem_map.mp entered
    exact ⟨congrArg (fun o => o.key.ns) he, refers⟩
  · rintro ⟨ns, r, hr, kind, name, uid⟩
    refine ⟨List.mem_map.mpr ⟨r, hr, ?_⟩, r, hr, kind, name, uid⟩
    rw [kind, name, ns]
    rfl

/-- What is under a key, if a worker owns it. -/
def owned? (s : Store K) (w : Worker) (k : Key) : Option K :=
  (s.get? k).filter fun x => w.Owns (Resource.metadata x)

/-- All that a worker owns, in key order. -/
def owned (s : Store K) (w : Worker) : List K :=
  s.list.filter fun x => w.Owns (Resource.metadata x)

/-- What agrees under every key agrees in all. -/
theorem map_owned_congr {γ : Type} {f : K → γ}
    (same : ∀ k, (owned? s w k).map f = (owned? s' w' k).map f) :
    (owned s w).map f = (owned s' w').map f := by
  have selected (s : Store K) (w : Worker) : (owned s w).map f = s.objects.toList.filterMap
      fun b => (Option.guard (fun x => w.Owns (Resource.metadata x)) b.2).map f := by
    rw [owned, Store.list, OrderedMap.values, ← List.filterMap_eq_filter, List.map_filterMap,
      List.filterMap_map]
    rfl
  have found (s : Store K) (w : Worker) (k : Key) : ((s.objects.get? k).bind fun x =>
      (Option.guard (fun x => w.Owns (Resource.metadata x)) x).map f) = (owned? s w k).map f := by
    rw [owned?, Store.get?]
    cases s.objects.get? k with
    | none => rfl
    | some x => rfl
  rw [selected, selected]
  refine OrderedMap.filterMap_congr fun k => ?_
  rw [found, found, same]

end Report

/-! ### What a report shows -/

/-- A machine set with no more than a report shows of it. -/
def MachineSet.shown (x : MachineSet) : MachineSet :=
  { metadata := .new "" x.metadata.name default, spec := x.spec, status := default }

/-- A machine with no more than a report shows of it. -/
def Machine.shown (x : Machine) : Machine :=
  { metadata := .new "" x.metadata.name default, spec := ⟨x.spec.machineSet, none⟩
    status := x.status }

namespace Report

theorem aggregate_shown (sets : List MachineSet) (machines : List Machine) :
    aggregate (sets.map MachineSet.shown) (machines.map Machine.shown) =
      aggregate sets machines := by
  rw [aggregate, List.foldl_map, List.foldl_map]
  rfl

/-- The state that a scan of all objects makes up for a worker. -/
def scan (a : Api) (w : Worker) : WorkerState :=
  aggregate (a.machineSets.list.filter fun x => w.Owns x.metadata)
    (a.machines.list.filter fun x => w.Owns x.metadata)

/-- Whether the dependents of two workers show the same under every key. -/
structure Alike (a : Api) (w : Worker) (a' : Api) (w' : Worker) : Prop where
  machineSets : ∀ k, (owned? a.machineSets.store w k).map MachineSet.shown =
    (owned? a'.machineSets.store w' k).map MachineSet.shown
  machines : ∀ k, (owned? a.machines.store w k).map Machine.shown =
    (owned? a'.machines.store w' k).map Machine.shown

variable {a a' : Api} {w w' : Worker} {k : Key}

theorem Alike.scan_eq (h : Alike a w a' w') : scan a w = scan a' w' := by
  have sets := map_owned_congr h.machineSets
  have machines := map_owned_congr h.machines
  show aggregate (owned a.machineSets.store w) (owned a.machines.store w) =
    aggregate (owned a'.machineSets.store w') (owned a'.machines.store w')
  rw [← aggregate_shown, sets, machines, aggregate_shown]

/-- **The loop gathers what a scan finds.** -/
theorem aggregate_dependents (h : a.Sound) (w : Worker) :
    aggregate (dependents a.caches.machineSets w.key w) (dependents a.caches.machines w.key w) =
      scan a w := by
  rw [dependents_eq (s := a.caches.machineSets) h.machineSets.indexed,
    dependents_eq (s := a.caches.machines) h.machines.indexed]
  rfl

end Report

/-! ### Attempts that end -/

/-- What is left of a plan when it has looked at these caches. -/
def Plan.looked (caches : Caches) : Plan → Plan
  | .look next => looked caches (next caches)
  | p => p

/-- Whether a plan, in these caches, only looks and ends well. -/
def Plan.Idles (caches : Caches) (p : Plan) : Prop := p.looked caches = .done (.ok .done)

namespace AttemptState

variable {k : Key} {a a' : Api} {p : Plan} {r r' : Result} {next : Caches → Plan}

/-- An attempt that follows a plan and comes to a result, nobody else using the API. -/
def Ends (k : Key) (p : Plan) (a : Api) (r : Result) (a' : Api) : Prop :=
  Relation.ReflTransGen (Alone k) (some (.going p), a) (some (.going (.done r)), a')

/-- Either the plan has ended or something moves it on. -/
theorem Ends.head (h : Ends k p a r a') :
    p = .done r ∧ a' = a ∨ ∃ st a₁ notes, (AttemptState.going p).Moves k a (some st) a₁ notes ∧
      Relation.ReflTransGen (Alone k) (some st, a₁) (some (.going (.done r)), a') := by
  rcases h.cases_head with same | ⟨⟨st, a₁⟩, ⟨stage, notes, under, moves⟩, rest⟩
  · obtain ⟨hp, rfl⟩ := Prod.mk.injEq .. ▸ same
    injection hp with hp
    injection hp with hp
    exact .inl ⟨hp, rfl⟩
  · obtain rfl := Option.some.inj under
    cases st with
    | some st => exact .inr ⟨st, a₁, notes, moves, rest⟩
    -- An attempt that was cut off comes to no result.
    | none =>
      rcases rest.cases_head with same | ⟨_, ⟨_, _, under, _⟩, _⟩
      · cases same
      · cases under

theorem Ends.done (h : Ends k (.done r) a r' a') : r' = r ∧ a' = a := by
  rcases h.head with ⟨hp, ha⟩ | ⟨_, _, _, moves, _⟩
  · cases hp
    exact ⟨rfl, ha⟩
  · cases moves

theorem Ends.look (h : Ends k (.look next) a r a') : Ends k (next a.caches) a r a' := by
  rcases h.head with ⟨hp, _⟩ | ⟨_, _, _, moves, rest⟩
  · cases hp
  · cases moves
    exact rest

theorem Ends.write {x : Write} {next : Except ApiError Unit → Plan}
    (h : Ends k (.write x next) a r a') :
    Ends k (next (a.write x).1) (a.write x).2 r a' ∨
      ∃ reason, Ends k (next (.error (.unavailable reason))) a r a' := by
  rcases h.head with ⟨hp, _⟩ | ⟨_, _, _, moves, rest⟩
  · cases hp
  · cases moves with
    | write => exact .inl rest
    | lose reason => exact .inr ⟨reason, rest⟩

theorem Ends.looked (h : Ends k p a r a') : Ends k (p.looked a.caches) a r a' := by
  induction p with
  | look next ih => exact ih _ h.look
  | _ => exact h

/-- An attempt may go on until it has looked. -/
theorem alone_looked (k : Key) (p : Plan) (a : Api) :
    Relation.ReflTransGen (Alone k) (some (.going p), a)
      (some (.going (p.looked a.caches)), a) := by
  induction p with
  | look next ih => exact (ih _).head (alone_move .look)
  | _ => exact .refl

/-- An attempt that ends well with its only write made it. -/
theorem Ends.written {x : Write} {action : Action}
    (h : Ends k (.write x (Plan.unlessError (.done (.ok .done)))) a (.ok action) a') :
    a' = (a.write x).2 := by
  rcases h.write with made | ⟨reason, lost⟩
  · revert made
    cases (a.write x).1 with
    | ok => exact fun made => made.done.2
    | error e => exact fun made => by cases made.done.1
  · cases lost.done.1

/-- The same of an attempt under way. -/
def Idles (caches : Caches) : AttemptState → Prop
  | .going p => p.Idles caches
  | .calling _ _ => False

theorem Idles.step {stage : AttemptState} {stage' : Option AttemptState} {notes : List Note}
    (h : stage.Idles a.caches) (moves : stage.Moves k a stage' a' notes) :
    a' = a ∧ ∀ st ∈ stage', st.Idles a'.caches := by
  cases moves with
  | look => exact ⟨rfl, fun _ e => Option.some.inj e ▸ h⟩
  | finish | cut => exact ⟨rfl, fun _ e => by cases e⟩
  | reply => exact h.elim
  | _ => cases h

/-- **A plan that idles leaves the API as it is**, and can only end well. -/
theorem idles_run (h : p.Idles a.caches) {x : Option AttemptState × Api}
    (run : Relation.ReflTransGen (Alone k) (some (.going p), a) x) :
    x.2 = a ∧ ∀ st ∈ x.1, st.Idles a.caches := by
  induction run with
  | refl => exact ⟨rfl, fun _ e => Option.some.inj e ▸ h⟩
  | tail _ step ih =>
    obtain ⟨stage, notes, under, moves⟩ := step
    obtain ⟨same, idles⟩ := ih
    obtain ⟨same', idles'⟩ := Idles.step (same.symm ▸ idles stage under) moves
    rw [same'.trans same] at idles' ⊢
    exact ⟨rfl, idles'⟩

end AttemptState

/-! ### Attempts to report -/

/-- A worker with another state and version, all else being the same. -/
def Worker.reporting (w : Worker) (s : WorkerState) (version : Nat) : Worker :=
  { w with
    metadata := { w.metadata with resourceVersion := version }
    status := { w.status with state := some s } }

namespace Report

variable {a a' : Api} {w : Worker} {k : Key} {r : Action}

theorem numbered_state (k : Key) (s : WorkerState) (v : Nat) (w : Worker) :
    Tracker.numbered v w (Tracker.proposed w (Write.state k s).change) = w.reporting s v := by
  have same : Resource.sameSpec w (Tracker.proposed w (Write.state k s).change) = true :=
    decide_eq_true rfl
  rw [Tracker.numbered, same]
  rfl

/-- A state that differs is written, and nothing else is. -/
theorem modify_state {t : Tracker Worker} {s : WorkerState} (found : t.get? k = some w)
    (stays : w.metadata.isDeleting = true → w.metadata.finalizers ≠ [])
    (differs : w.status.state ≠ some s) :
    (t.modify k (Write.state k s).change).2 = { t with version := t.version + 1 }.publish
      (.updated w (w.reporting s (t.version + 1))) := by
  rcases Tracker.modify_cases found (Write.state k s).change with ⟨same, -⟩ | told
  · have state := congrArg (·.status.state) (of_decide_eq_true same)
    exact absurd state.symm differs
  · rw [told, numbered_state]
    rcases Tracker.writeEvent_cases w (w.reporting s (t.version + 1)) with
      ⟨deleting, bare, -⟩ | ⟨-, hw⟩
    · exact absurd bare (stays deleting)
    · rw [hw]

/-- What is left of the plan of a worker when it has looked. -/
def verdict (k : Key) (a : Api) (w : Worker) : Plan :=
  if w.status.state = some (scan a w) then .done (.ok .done)
  else .write (.state k (scan a w)) (Plan.unlessError (.done (.ok .done)))

theorem looked_plan (h : a.Sound) (found : a.workers.get? k = some w) :
    (plan k).looked a.caches = verdict k a w := by
  have cached : a.caches.workers.get? k = some w := found
  have key : w.key = k := h.workers.indexed.keyed k w found
  have gathered := aggregate_dependents h w
  rw [key] at gathered
  simp only [plan, Plan.looked, cached, gathered, verdict]
  split <;> rfl

theorem idles_of_reported (h : a.Sound) (found : a.workers.get? k = some w)
    (same : w.status.state = some (scan a w)) : (plan k).Idles a.caches := by
  rw [Plan.Idles, looked_plan h found, verdict, if_pos same]

/-- What an attempt that ends well leaves behind. -/
structure Reported (k : Key) (a : Api) (w : Worker) (a' : Api) : Prop where
  stored : ∃ v, a'.workers.get? k = some (w.reporting (scan a w) v)
  others : ∀ k', k' ≠ k → a'.workers.get? k' = a.workers.get? k'
  elsewhere : a'.machineSets = a.machineSets ∧ a'.machines = a.machines ∧ a'.clusters = a.clusters

theorem reported (h : a.Sound) (found : a.workers.get? k = some w)
    (stays : w.metadata.isDeleting = true → w.metadata.finalizers ≠ [])
    (ends : AttemptState.Ends k (plan k) a (.ok r) a') : a'.Sound ∧ Reported k a w a' := by
  have left := ends.looked
  rw [looked_plan h found, verdict] at left
  split at left
  · rename_i same
    obtain rfl := left.done.2
    refine ⟨h, ⟨w.metadata.resourceVersion, ?_⟩, fun _ _ => rfl, rfl, rfl, rfl⟩
    rw [found, Worker.reporting, ← same]
  · rename_i differs
    have key : (w.reporting (scan a w) (a.workers.version + 1)).key = k :=
      h.workers.indexed.keyed k w found
    have written := left.written
    have sound := h.next (.worker (.request (.modify k (Write.state k (scan a w)).change)))
    rw [Api.write_eq] at written
    subst written
    refine ⟨sound, ⟨a.workers.version + 1, ?_⟩, fun k' hk' => ?_, rfl, rfl, rfl⟩
    · show (a.workers.modify k (Write.state k (scan a w)).change).2.get? k = _
      rw [modify_state found stays differs, Tracker.get?_publish]
      exact if_pos key.symm
    · show (a.workers.modify k (Write.state k (scan a w)).change).2.get? k' = _
      rw [modify_state found stays differs, Tracker.get?_publish]
      exact if_neg fun e => hk' (e.trans key)

/-- An attempt whose write is not lost ends well. -/
theorem ends_undisturbed (h : a.Sound) (found : a.workers.get? k = some w) :
    ∃ a', AttemptState.Ends k (plan k) a (.ok .done) a' := by
  have looked := AttemptState.alone_looked k (plan k) a
  rw [looked_plan h found, verdict] at looked
  split at looked
  · exact ⟨a, looked⟩
  · have landed : (a.write (.state k (scan a w))).1 = .ok () :=
      (Api.outcome_write (w := .state k (scan a w)) found (h.workers.indexed.keyed k w found)).1
    have written := looked.tail (AttemptState.alone_move .write)
    rw [landed] at written
    exact ⟨_, written⟩

/-- **A report is right.** Whatever requests made the API, an attempt that nobody disturbs and
that succeeds leaves on record what a scan makes of the objects that the worker owns. It
changes nothing else but the version of the worker, and a second attempt does nothing at all.
Another history with the same dependents leads to the same report. -/
theorem reports (acts : List Api.Act)
    (found : (Api.empty.run acts).workers.get? k = some w)
    (stays : w.metadata.isDeleting = true → w.metadata.finalizers ≠ [])
    (ends : AttemptState.Ends k (plan k) (Api.empty.run acts) (.ok r) a') :
    let a := Api.empty.run acts
    (∃ v, a'.workers.get? k = some (w.reporting (scan a w) v)) ∧
      (∀ k', k' ≠ k → a'.workers.get? k' = a.workers.get? k') ∧
      (a'.machineSets = a.machineSets ∧ a'.machines = a.machines ∧ a'.clusters = a.clusters) ∧
      (∀ x, Relation.ReflTransGen (AttemptState.Alone k) (some (.going (plan k)), a') x →
        x.2 = a') ∧
      ∀ (acts₂ : List Api.Act) (k₂ : Key) (w₂ : Worker) (r₂ : Action) (a₂ : Api),
        (Api.empty.run acts₂).workers.get? k₂ = some w₂ →
        (w₂.metadata.isDeleting = true → w₂.metadata.finalizers ≠ []) →
        Alike (Api.empty.run acts₂) w₂ a w →
        AttemptState.Ends k₂ (plan k₂) (Api.empty.run acts₂) (.ok r₂) a₂ →
        (a₂.workers.get? k₂).map (·.status.state) = (a'.workers.get? k).map (·.status.state) := by
  intro a
  have sound := Api.sound_empty.run acts
  obtain ⟨sound', ⟨v, stored⟩, others, sets, machines, clusters⟩ := reported sound found stays ends
  refine ⟨⟨v, stored⟩, others, ⟨sets, machines, clusters⟩, fun x run => ?_, ?_⟩
  · have same : scan a' (w.reporting (scan a w) v) = scan a w := by
      rw [scan, sets, machines]
      rfl
    exact (AttemptState.idles_run (idles_of_reported sound' stored (congrArg some same.symm)) run).1
  · intro acts₂ k₂ w₂ r₂ a₂ found₂ stays₂ alike ends₂
    obtain ⟨-, ⟨v₂, stored₂⟩, -⟩ :=
      reported (Api.sound_empty.run acts₂) found₂ stays₂ ends₂
    rw [stored, stored₂, alike.scan_eq]
    rfl

/-- A worker in deletion with a machine that was handed to it, and one of its last incarnation. -/
def reparented : List Api.Act :=
  let w := Trial.Fixture.withFinalizer "held" (Trial.Fixture.worker "tenant" "pool" default)
  let before := Trial.Fixture.worker "tenant" "pool" ⟨1⟩
  let other := Trial.Fixture.worker "tenant" "other" default
  [.worker (.request (.create default w)),
    .machineSet (.request (.create default (Trial.Fixture.machineSet w "set" default "small" 2))),
    .machine (.request (.create default
      (Trial.Fixture.machine before "set" "stale" default .ready none))),
    .machine (.request (.create default
      (Trial.Fixture.machine other "set" "fresh" default .pending (some "node")))),
    .machine (.request (.modify ⟨"tenant", "fresh"⟩ (Resource.ownedBy w))),
    .worker (.request (.delete default ⟨"tenant", "pool"⟩))]

/-- The machine handed over is reported, and also if the worker is created last of all. -/
theorem reports_reparented :
    let k : Key := ⟨"tenant", "pool"⟩
    let a := Api.empty.run reparented
    ∃ w a', a.workers.get? k = some w ∧
      (w.metadata.isDeleting = true ∧ w.metadata.finalizers ≠ []) ∧
      AttemptState.Ends k (plan k) a (.ok .done) a' ∧
      (scan a w).phaseCounts.toList = [(.pending, 1)] ∧
      (∃ v, a'.workers.get? k = some (w.reporting (scan a w) v)) ∧
      ∃ a₂, AttemptState.Ends k (plan k) (Api.empty.run (reparented.rotate 1)) (.ok .done) a₂ ∧
        (a₂.workers.get? k).map (·.status.state) = (a'.workers.get? k).map (·.status.state) := by
  intro k a
  let a₁ := Api.empty.run (reparented.rotate 1)
  let w := (a.workers.get? k).get (by decide)
  let w₁ := (a₁.workers.get? k).get (by decide)
  have found : a.workers.get? k = some w := (Option.some_get _).symm
  have found₁ : a₁.workers.get? k = some w₁ := (Option.some_get _).symm
  have held : w.metadata.isDeleting = true ∧ w.metadata.finalizers ≠ [] := by decide
  have sets : a₁.machineSets.store = a.machineSets.store := rfl
  have machines : a₁.machines.store = a.machines.store := rfl
  obtain ⟨a', ends⟩ := ends_undisturbed (Api.sound_empty.run reparented) found
  obtain ⟨a₂, ends₂⟩ := ends_undisturbed (Api.sound_empty.run (reparented.rotate 1)) found₁
  obtain ⟨stored, -, -, -, agree⟩ := reports reparented found (fun _ => held.2) ends
  have owns (m : Metadata) : w₁.Owns m ↔ w.Owns m := Worker.owns_congr (by decide) (by decide) m
  have alike : Alike a₁ w₁ a w := by
    refine ⟨fun k => ?_, fun k => ?_⟩
    · simp only [owned?, sets, owns]
    · simp only [owned?, machines, owns]
  exact ⟨w, a', found, held, ends, by decide, stored, a₂, ends₂,
    agree _ k w₁ .done a₂ found₁ (by decide) alike ends₂⟩

end Report

end PoolControl
