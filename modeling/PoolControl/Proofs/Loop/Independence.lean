import PoolControl.Loop.Report
import PoolControl.Proofs.Api.Alike
import PoolControl.Proofs.Loop.Exclusive
import PoolControl.Proofs.Loop.Transcript

/-! Two loops that do not influence each other.

Run the same loop on two APIs that differ only in what the other loop writes. Step by step the
two attempts do the same: `Plan.Twin` relates two plans that cannot be told apart by an
observer who sees workers through a view, and `play_twin` turns that into runs, whose
transcripts agree line by line and whose APIs stay alike. Both loops are twins of themselves,
each in its own view of workers (`Provision.twin_plan`, `Report.twin_plan`). -/
namespace PoolControl

variable {V : View Worker} {W : Write → Prop} {C : Command → Command → Prop}

/-- Caches that differ only in what a view erases of workers. -/
structure Caches.Alike (V : View Worker) (c c' : Caches) : Prop where
  workers : c.workers.Alike V c'.workers
  machineSets : c.machineSets = c'.machineSets
  machines : c.machines = c'.machines
  clusters : c.clusters = c'.clusters

theorem Api.Alike.caches {a a' : Api} (h : a.Alike V a') : a.caches.Alike V a'.caches :=
  ⟨h.workers.store, congrArg Tracker.store h.machineSets, congrArg Tracker.store h.machines,
    congrArg Tracker.store h.clusters⟩

/-- The same call, for workers that look the same. -/
structure Command.Alike (V : View Worker) (c c' : Command) : Prop where
  call : c.call = c'.call
  worker : V.Same c.worker c'.worker
  cluster : c.cluster = c'.cluster

/-! ### Twins -/

/-- Two plans that do the same, if they look at caches that differ only in what a view erases of
workers: the same writes, all in `W`, and calls that are related by `C`. -/
inductive Plan.Twin (V : View Worker) (W : Write → Prop) (C : Command → Command → Prop) :
    Plan → Plan → Prop
  | done (r : Result) : Twin V W C (.done r) (.done r)
  | look {next next' : Caches → Plan}
      (h : ∀ c c' : Caches, c.Alike V c' → Twin V W C (next c) (next' c')) :
      Twin V W C (.look next) (.look next')
  | clock {next next' : Timestamp → Plan} (h : ∀ now, Twin V W C (next now) (next' now)) :
      Twin V W C (.clock next) (.clock next')
  | write {x : Write} {next next' : Except ApiError Unit → Plan} (hx : W x)
      (h : ∀ r, Twin V W C (next r) (next' r)) : Twin V W C (.write x next) (.write x next')
  | actuate {c c' : Command} {next next' : Reply → Plan} (hc : C c c')
      (h : ∀ r, Twin V W C (next r) (next' r)) : Twin V W C (.actuate c next) (.actuate c' next')

theorem Plan.twin_write {x : Write} {next next' : Plan} (hx : W x) (h : next.Twin V W C next') :
    (write x (unlessError next)).Twin V W C (write x (unlessError next')) := by
  refine .write hx fun r => ?_
  cases r with
  | ok => exact h
  | error e => exact .done _

/-! ### Runs -/

variable {τ : Type} {R : Api → Api → Prop}

/-- The same line, with calls and APIs related. -/
inductive Line.Alike (C : Command → Command → Prop) (R : Api → Api → Prop) : Line → Line → Prop
  | wrote (x : Write) (r : Except ApiError Unit) : Alike C R (.wrote x r) (.wrote x r)
  | called {c c' : Command} {a a' : Api} (hc : C c c') (ha : R a a') :
      Alike C R (.called c a) (.called c' a')

structure Transcript.Alike (C : Command → Command → Prop) (R : Api → Api → Prop)
    (s s' : Transcript τ) :
    Prop where
  api : R s.api s'.api
  backend : s.backend = s'.backend
  readings : s.readings = s'.readings
  lines : List.Forall₂ (Line.Alike C R) s.lines s'.lines

theorem Transcript.alike_opening {C : Command → Command → Prop} {R : Api → Api → Prop} {a a' : Api}
    (alike : R a a') (t : τ) : (opening a t).Alike C R (opening a' t) :=
  ⟨alike, rfl, rfl, .nil⟩

/-- What happens in a setting does not lead out of a relation of APIs that look alike. -/
structure Setting.Keeps (V : View Worker) (W : Write → Prop) (C : Command → Command → Prop)
    (R : Api → Api → Prop) (o : Setting τ) : Prop where
  looks : ∀ {a a'}, R a a' → a.caches.Alike V a'.caches
  writes : ∀ {x a a'}, W x → R a a' →
    (a.write x).1 = (a'.write x).1 ∧ R (a.write x).2 (a'.write x).2
  answers : ∀ {c c' a a'} t, C c c' → R a a' → (o.answer c a t).1 = (o.answer c' a' t).1 ∧
    R (o.answer c a t).2.1 (o.answer c' a' t).2.1 ∧
    (o.answer c a t).2.2 = (o.answer c' a' t).2.2

/-- **Twins run alike.** -/
theorem Setting.play_twin {o : Setting τ} (keeps : o.Keeps V W C R) {p p' : Plan}
    (h : p.Twin V W C p') {s s' : Transcript τ} (alike : s.Alike C R s') :
    (o.play p s).1 = (o.play p' s').1 ∧ (o.play p s).2.Alike C R (o.play p' s').2 := by
  induction h generalizing s s' with
  | done r => exact ⟨rfl, alike⟩
  | look h ih => exact ih _ _ (keeps.looks alike.api) alike
  | clock h ih =>
    rw [play_clock, play_clock, ← alike.readings]
    exact ih _ ⟨alike.api, alike.backend, rfl, alike.lines⟩
  | @write x next next' hx h ih =>
    obtain ⟨same, apis⟩ := keeps.writes hx alike.api
    have wrote (r : Except ApiError Unit) {a a' : Api} (apis : R a a') :
        (s.wrote x r a).Alike C R (s'.wrote x r a') :=
      ⟨apis, alike.backend, alike.readings, List.rel_append alike.lines (.cons (.wrote x r) .nil)⟩
    rw [play_write, play_write, alike.lines.length_eq]
    cases o.fails s'.lines.length x with
    | some e => exact ih _ (wrote _ alike.api)
    | none =>
      dsimp only
      rw [same]
      exact ih _ (wrote _ apis)
  | @actuate c c' next next' hc h ih =>
    have answers := keeps.answers s.backend hc alike.api
    have called {a a' : Api} (t : τ) (apis : R a a') :
        (s.called c a t).Alike C R (s'.called c' a' t) :=
      ⟨apis, rfl, alike.readings,
        List.rel_append alike.lines (.cons (.called hc alike.api) .nil)⟩
    rw [play_actuate, play_actuate, ← alike.backend]
    generalize o.answer c s.api s.backend = out at answers
    generalize o.answer c' s'.api s.backend = out' at answers
    obtain ⟨r, a, t⟩ := out
    obtain ⟨r', a', t'⟩ := out'
    obtain ⟨rfl, apis, rfl⟩ : r = r' ∧ R a a' ∧ t = t' := answers
    cases r with
    | some r => exact ih r (called t apis)
    | none => exact ⟨rfl, called t apis⟩

/-! ### The provisioning loop -/

namespace Provision

variable {k : Key} {w : Worker} {c : Command} {next next' : Plan} {o : Option WorkerState}

/-- The provisioning loop makes no reports. -/
def Unreporting (x : Write) : Prop := ∀ s, x ≠ .state x.key s

/-- Twins in the view of the provisioning loop. -/
abbrev Twins : Plan → Plan → Prop := Plan.Twin .operations Unreporting (Command.Alike .operations)

/-- A cached worker shows a record already if one that looks the same does. -/
theorem twin_record (h : Twins next next') (s : OperationStatus) :
    Twins (record k s next) (record k s next') := by
  have written : Twins (.write (.operationStatus k s) (Plan.unlessError next))
      (.write (.operationStatus k s) (Plan.unlessError next')) := Plan.twin_write nofun h
  refine .look fun caches caches' alike => ?_
  have stored := alike.workers.stored k
  generalize caches.workers.get? k = found at stored
  generalize caches'.workers.get? k = found' at stored
  cases stored with
  | none => exact written
  | @some w w' same =>
    rw [View.eq_of_operations_same same]
    show Twins (if differs w.status s then _ else _) (if differs w.status s then _ else _)
    split
    · exact written
    · exact h

/-- The same call with another state shown on the worker. -/
def showing (o : Option WorkerState) (c : Command) : Command :=
  { c with worker := c.worker.showing o }

theorem twin_prepare (h : Twins next next') :
    Twins (prepare c next) (prepare (showing o c) next') := by
  have begun : Twins
      (start c.worker (operationOf c) (announced c).phase (announced c).operation.description next)
      (start (showing o c).worker (operationOf c) (announced c).phase
        (announced c).operation.description next') := by
    show Twins (if isRetry c.worker.status (operationOf c) then _ else _)
      (if isRetry c.worker.status (operationOf c) then _ else _)
    split
    · exact h
    · exact .clock fun now => twin_record h _
  show Twins (if Idle.creates c.call then _ else _) (if Idle.creates c.call then _ else _)
  split
  · show Twins (if c.worker.metadata.hasFinalizer finalizer then _ else _)
      (if c.worker.metadata.hasFinalizer finalizer then _ else _)
    split
    · exact begun
    · exact Plan.twin_write nofun begun
  · exact begun

theorem twin_conclude (c : Command) (r : Reply) :
    Twins (conclude c r) (conclude (showing o c) r) := by
  have released : Twins (release c.worker.key) (release c.worker.key) :=
    Plan.twin_write nofun (.done _)
  cases r with
  | ok data =>
    show Twins (if c.call = .delete then _ else _) (if c.call = .delete then _ else _)
    split
    · exact released
    · have rest : Twins (if c.call = .migrate then release c.worker.key else .done (.ok .done))
          (if c.call = .migrate then release c.worker.key else .done (.ok .done)) := by
        split
        · exact released
        · exact .done _
      exact .clock fun now => twin_record rest _
  | error e => exact .clock fun now => .clock fun later => twin_record (.done _) _

theorem twin_operate (w : Worker) (o : Option WorkerState) (c : Cluster) :
    Twins (operate w c) (operate (w.showing o) c) := by
  rw [operate_eq, operate_eq, show due (w.showing o) = due w from rfl]
  cases due w with
  | none => exact .done _
  | some m =>
    exact twin_prepare (c := ⟨m, w, c⟩) (.actuate ⟨rfl, rfl, rfl⟩ fun r => twin_conclude _ r)

/-- **The provisioning loop does the same whatever state is reported.** -/
theorem twin_plan (k : Key) : Twins (plan k) (plan k) := by
  rw [plan_eq]
  refine .look fun caches caches' alike => ?_
  have stored := alike.workers.stored k
  generalize caches.workers.get? k = found at stored
  generalize caches'.workers.get? k = found' at stored
  cases stored with
  | none => exact .done _
  | @some w w' same =>
    rw [View.eq_of_operations_same same]
    refine .look fun caches caches' alike => ?_
    rw [alike.clusters]
    split
    · exact .done _
    · rename_i c _
      split
      · exact .done _
      · have operates := twin_operate w w'.status.state c
        show Twins (if w.metadata.request?.isSome then _ else _)
          (if w.metadata.request?.isSome then _ else _)
        split
        · exact Plan.twin_write nofun operates
        · exact operates

end Provision

/-! ### The report loop -/

namespace Report

/-- What the report loop writes in an attempt on `k`. -/
def Reporting (k : Key) (x : Write) : Prop := ∃ s, x = .state k s

/-- Which dependents a worker has can be told from what the report loop sees of it. -/
theorem dependents_operatedAs {K : Type} [Resource K] (s : Store K) (k : Key) (w v : Worker) :
    dependents s k (w.operatedAs v) = dependents s k w :=
  rfl

/-- **The report loop does the same whatever the provisioning loop has written.** -/
theorem twin_plan (k : Key) :
    (plan k).Twin .reports (Reporting k) (fun _ _ => False) (plan k) := by
  refine .look fun caches caches' alike => ?_
  have stored := alike.workers.stored k
  generalize caches.workers.get? k = found at stored
  generalize caches'.workers.get? k = found' at stored
  cases stored with
  | none => exact .done _
  | @some w w' same =>
    rw [View.eq_of_reports_same same]
    refine .look fun first first' sets => .look fun second second' machines => ?_
    rw [sets.machineSets, machines.machines, dependents_operatedAs, dependents_operatedAs]
    generalize aggregate _ _ = state
    show Plan.Twin _ _ _ (if w.status.state = some state then _ else _)
      (if w.status.state = some state then _ else _)
    split
    · exact .done _
    · exact Plan.twin_write ⟨_, rfl⟩ (.done _)

end Report

/-! ### The two loops -/

/-- Whether the answers of the actuator, and what its calls make of the API, do not depend on what
a view erases of workers. -/
def Setting.Blind (V : View Worker) (o : Setting τ) : Prop :=
  ∀ {c c' a a'} t, c.Alike V c' → a.Alike V a' → (o.answer c a t).1 = (o.answer c' a' t).1 ∧
    (o.answer c a t).2.1.Alike V (o.answer c' a' t).2.1 ∧
    (o.answer c a t).2.2 = (o.answer c' a' t).2.2

theorem Setting.Blind.keeps {o : Setting τ} (blind : o.Blind .operations) :
    o.Keeps .operations Provision.Unreporting (Command.Alike .operations)
      (Api.Alike .operations) where
  looks := Api.Alike.caches
  writes other alike := by
    refine alike.write (Write.steady_operations other) fun w w' _ _ same => ?_
    rw [View.eq_of_operations_same same]
    exact (Write.ends_showing other _).symm
  answers := blind

/-- The worker under a key is not about to go. -/
def Api.Stays (k : Key) (a : Api) : Prop :=
  ∀ w, a.workers.get? k = some w → w.metadata.isDeleting = true → w.metadata.finalizers ≠ []

/-- A report leaves a worker finalizers and deletion. -/
theorem Api.Stays.report {k : Key} {a : Api} (h : a.Stays k) (s : WorkerState) :
    (a.write (.state k s)).2.Stays k := by
  cases found : a.workers.get? k with
  | none =>
    rw [write_of_missing found]
    exact h
  | some w =>
    have stays : ¬ (Write.state k s).Ends w := Write.not_ends_state (h w found)
    rw [write_of_found found]
    split
    · exact h
    · intro w' found'
      have found' : (Tracker.publish _ (told (.state k s) w (a.workers.version + 1))).get? k =
        some w' := found'
      rw [told, if_neg stays, Tracker.get?_publish] at found'
      split at found'
      · cases found'
        exact h w found
      · exact h w' found'

theorem Setting.keeps_reports (o : Setting τ) (k : Key) :
    o.Keeps .reports (Report.Reporting k) (fun _ _ => False)
      fun a a' => a.Alike .reports a' ∧ a.Stays k ∧ a'.Stays k where
  looks alike := alike.1.caches
  writes := by
    rintro _ a a' ⟨s, rfl⟩ ⟨alike, stays, stays'⟩
    obtain ⟨same, alike⟩ := alike.write (Write.steady_reports k s) fun w w' found found' _ =>
      iff_of_false (Write.not_ends_state (stays w found)) (Write.not_ends_state (stays' w' found'))
    exact ⟨same, alike, stays.report s, stays'.report s⟩
  answers _ h := h.elim

/-- Without calls, lines that are alike are the same. -/
theorem Line.Alike.eq {l l' : Line} (h : Line.Alike (fun _ _ => False) R l l') : l = l' := by
  cases h with
  | wrote => rfl
  | called h => exact h.elim

/-- **The two loops do not influence each other.** On APIs that differ only in the states of
workers, an attempt of the provisioning loop ends the same, with the same writes answered the
same, and calls for workers that differ only in their state; and what is left differs only in
states. On APIs that differ only in what the provisioning loop writes, where no worker is about
to go, an attempt of the report loop ends the same with the same writes, and what is left differs
only in what differed before. -/
theorem loops_independent (o : Setting τ) (k : Key) (t : τ) (a a' : Api) :
    (o.Blind .operations → a.Alike .operations a' →
      let out := o.play (Provision.plan k) (.opening a t)
      let out' := o.play (Provision.plan k) (.opening a' t)
      out.1 = out'.1 ∧
        List.Forall₂ (Line.Alike (Command.Alike .operations) (Api.Alike .operations))
          out.2.lines out'.2.lines ∧
        out.2.api.Alike .operations out'.2.api) ∧
    (a.Alike .reports a' → a.Stays k → a'.Stays k →
      let out := o.play (Report.plan k) (.opening a t)
      let out' := o.play (Report.plan k) (.opening a' t)
      out.1 = out'.1 ∧ out.2.lines = out'.2.lines ∧ out.2.api.Alike .reports out'.2.api) := by
  constructor
  · intro blind alike out out'
    obtain ⟨same, transcripts⟩ :=
      o.play_twin blind.keeps (Provision.twin_plan k) (Transcript.alike_opening alike t)
    exact ⟨same, transcripts.lines, transcripts.api⟩
  · intro alike stays stays' out out'
    obtain ⟨same, transcripts⟩ := o.play_twin (o.keeps_reports k) (Report.twin_plan k)
      (Transcript.alike_opening ⟨alike, stays, stays'⟩ t)
    have lines := List.forall₂_eq_eq_eq ▸ transcripts.lines.imp fun _ _ => Line.Alike.eq
    exact ⟨same, lines, transcripts.api.1⟩

/-- A setting with a backend that creates nothing, where no write fails. -/
def Setting.idle : Setting Nat where
  tell _ := default
  fails _ _ := none
  answer c a n := (some (Idle.reply c n).1, a, (Idle.reply c n).2)

theorem Setting.blind_idle : Setting.idle.Blind .operations := by
  intro c c' a a' n same alike
  have status : Idle.status (n + 1) c'.worker = Idle.status (n + 1) c.worker := by
    rw [View.eq_of_operations_same same.worker]
    rfl
  have reply : Idle.reply c' n = Idle.reply c n := by
    rw [Idle.reply, Idle.reply, ← same.call, status]
  have replied : (some (Idle.reply c n).1, (Idle.reply c n).2) =
      (some (Idle.reply c' n).1, (Idle.reply c' n).2) := by rw [reply]
  exact ⟨(Prod.mk.inj replied).1, alike, (Prod.mk.inj replied).2⟩

/-- A new worker in a healthy cluster, with a state. -/
def Api.showing (o : Option WorkerState) : Api :=
  (Site.founded ((Trial.Fixture.worker "tenant" "pool" default).showing o)).api

/-- A worker in deletion with a finalizer, in a healthy cluster. -/
def Api.leaving (f : String) : Api :=
  (Site.founded (Trial.Fixture.deleting default (Trial.Fixture.withFinalizer f
    (Trial.Fixture.worker "tenant" "pool" default)))).api

/-- A new worker whose state was reported or not, and a worker in deletion with one finalizer or
another. -/
theorem loops_independent_founded :
    let a := Api.showing none
    let a' := Api.showing (some default)
    let out := Setting.idle.play (Provision.plan ⟨"tenant", "pool"⟩) (.opening a 0)
    let out' := Setting.idle.play (Provision.plan ⟨"tenant", "pool"⟩) (.opening a' 0)
    let b := Api.leaving "held"
    let b' := Api.leaving Provision.finalizer
    let told := Setting.idle.play (Report.plan ⟨"tenant", "pool"⟩) (.opening b 0)
    let told' := Setting.idle.play (Report.plan ⟨"tenant", "pool"⟩) (.opening b' 0)
    (out.1 = out'.1 ∧ out.2.lines.length = 4 ∧ out'.2.lines.length = 4 ∧
        out.2.api.Alike .operations out'.2.api) ∧
      told.1 = told'.1 ∧ told.2.lines.length = 1 ∧ told.2.lines = told'.2.lines ∧
        told.2.api.Alike .reports told'.2.api := by
  have empty (V : View Worker) : (⟨∅, 1, []⟩ : Tracker Worker).Alike V ⟨∅, 1, []⟩ :=
    ⟨⟨fun _ => .none, rfl⟩, rfl, .nil⟩
  have showing : (Api.showing none).Alike .operations (Api.showing (some default)) :=
    ⟨(empty _).publish (.created rfl), rfl, rfl, rfl⟩
  have leaving : (Api.leaving "held").Alike .reports (Api.leaving Provision.finalizer) :=
    ⟨(empty _).publish (.created rfl), rfl, rfl, rfl⟩
  have stays (f : String) : (Api.leaving f).Stays ⟨"tenant", "pool"⟩ := by
    intro w found _
    have stored : (Api.leaving f).workers.get? ⟨"tenant", "pool"⟩ = some _ :=
      (Tracker.get?_publish _ (.created _) _).trans (if_pos rfl)
    rw [← Option.some.inj (stored.symm.trans found)]
    exact List.cons_ne_nil _ _
  obtain ⟨same, -, left⟩ :=
    (loops_independent Setting.idle ⟨"tenant", "pool"⟩ 0 _ _).1 Setting.blind_idle showing
  obtain ⟨same', lines, left'⟩ :=
    (loops_independent Setting.idle ⟨"tenant", "pool"⟩ 0 _ _).2 leaving (stays _) (stays _)
  exact ⟨⟨same, rfl, rfl, left⟩, same', rfl, lines, left'⟩

end PoolControl
