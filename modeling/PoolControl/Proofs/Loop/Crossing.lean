import PoolControl.Proofs.Loop.Exclusive

/-! Requests that cross an attempt.

An attempt takes its request from the worker that a cache shows, and removes whatever request
the API has by then. In a `Crossing` the API belongs to others as well, who may write to it
before each write of the attempt, and the caches show what they like; the trail keeps each
write of the attempt with the API that it met. `executes_iff` says when the request that is
removed is the one that is carried out: exactly if it asks for the same as the one in the
cache did. A user who changes a request in between loses it (`request_lost`). -/
namespace PoolControl

/-- What a text asks for. A request that is not known counts as `reconcile`. -/
def Request.ofText (s : String) : Request := (Choice.ofName? s).getD .reconcile

/-- The call that a request asks for. -/
def Request.call : Request → Call
  | .reconcile => .reconcile
  | .migrate => .migrate
  | .restore => .restore

theorem Request.call_inj {r r' : Request} : r.call = r'.call ↔ r = r' := by
  cases r <;> cases r' <;> decide

theorem Worker.request_eq (w : Worker) : w.request? = w.metadata.request?.map Request.ofText := rfl

namespace Provision

/-- A request decides what is due. -/
theorem due_of_request {w : Worker} {r : Request} {m : Call}
    (present : w.metadata.isDeleting = false) (asks : w.request? = some r) (hd : due w = some m) :
    m = r.call := by
  rw [due, if_neg (by rw [present]; exact Bool.false_ne_true), asks] at hd
  cases r with
  | reconcile =>
    dsimp only at hd
    split at hd
    · cases hd
    · exact (Option.some.inj hd).symm
  | migrate => exact (Option.some.inj hd).symm
  | restore => exact (Option.some.inj hd).symm

end Provision

open Provision

/-- An API with an attempt, to which others write as well. -/
structure Crossing where
  api : Api
  /-- How often the clock was read. -/
  readings : Nat
  /-- The writes of the attempt that arrived, oldest first, each with the API that it met. -/
  trail : List (Write × Api)

/-- What goes on around an attempt. -/
structure Around where
  cache : Crossing → Caches
  tell : Nat → Timestamp
  /-- What others have made of the API when the next write arrives. -/
  others : Crossing → Api
  /-- The errors of writes that do not arrive. -/
  fails : Crossing → Write → Option ApiError

namespace Around

def surroundings (o : Around) : Surroundings Crossing where
  look s := o.cache s
  clock s := (o.tell s.readings, { s with readings := s.readings + 1 })
  write x s :=
    match o.fails s x with
    | some e => (.error e, { s with api := o.others s })
    | none =>
      (((o.others s).write x).1,
        { s with api := ((o.others s).write x).2, trail := s.trail ++ [(x, o.others s)] })

variable (o : Around) {p : Plan} {s s' : Crossing} {c : Command} {next : Reply → Plan}

/-- A write is the only step that leaves something on the trail, and only itself. -/
theorem mem_trail_write {x y : Write} {a : Api}
    (h : (y, a) ∈ (o.surroundings.write x s).2.trail) : (y, a) ∈ s.trail ∨ y = x := by
  simp only [surroundings] at h
  split at h
  · exact .inl h
  · rcases List.mem_append.mp h with old | new
    · exact .inl old
    · exact .inr (congrArg Prod.fst (List.mem_singleton.mp new))

/-- What a plan promises of its writes holds of what it leaves on the trail before its call. -/
theorem trail_of_leads {W : Write → Prop} {Q : Command → (Reply → Plan) → Prop}
    {stop : Plan.Stop} (h : p.LeadsTo W Q) (reached : p.advance o.surroundings s = (stop, s')) :
    ∀ x a, (x, a) ∈ s'.trail → (x, a) ∈ s.trail ∨ W x := by
  induction p generalizing s with
  | done r =>
    cases reached
    exact fun x a old => .inl old
  | look next ih => exact ih _ (h _) reached
  | clock next ih => exact ih (s := { s with readings := s.readings + 1 }) _ (h _) reached
  | write y next ih =>
    intro x a mem
    rcases ih _ (h.2 _) reached x a mem with before | after
    · rcases o.mem_trail_write before with old | rfl
      · exact .inl old
      · exact .inr h.1
    · exact .inr after
  | actuate c next =>
    cases reached
    exact fun x a old => .inl old

variable {k : Key} {w x : Worker} {a : Api} {v : String}

/-- **A request that is removed is carried out exactly if the cache showed one like it.** The
cache shows the worker `w`, out of deletion, when an attempt begins, and the attempt comes
to a call. If it has removed a request on the way, and the API had the worker `x` with the
request `v` then, that request is gone, and the call is what `v` asks for exactly if `w` and `x`
ask for the same. -/
theorem executes_iff (cached : (o.cache s).workers.get? k = some w)
    (present : w.metadata.isDeleting = false) (fresh : s.trail = [])
    (reached : (plan k).advance o.surroundings s = (.actuate c next, s'))
    (removed : (.clearRequest k, a) ∈ s'.trail) (stored : a.workers.get? k = some x)
    (hx : x.key = k) (asks : x.metadata.request? = some v) :
    (∀ y, (a.write (.clearRequest k)).2.workers.get? k = some y → y.metadata.request? = none) ∧
      c.worker = w ∧ (c.call = (Request.ofText v).call ↔ w.request? = x.request?) := by
  have gone : ∀ y, (a.write (.clearRequest k)).2.workers.get? k = some y →
      y.metadata.request? = none := by
    intro y found
    obtain ⟨-, outcome, -⟩ := Api.outcome_write (w := .clearRequest k) stored hx
    have found : (a.write (.clearRequest k)).2.workers.get? (Write.clearRequest k).key = some y :=
      found
    rw [found] at outcome
    cases outcome with
    | kept follows =>
      rw [follows.request]
      exact Write.request_clearRequest k x
  have attends : (attend k w).advance o.surroundings s = (.actuate c next, s') := by
    rw [plan_eq, Plan.advance] at reached
    simp only [surroundings, cached] at reached
    exact reached
  have leads := leads_attend_of (k := k) (w := w)
    (W := fun y => y = .clearRequest k → w.metadata.request?.isSome = true)
    (fun asked _ => asked) (fun _ _ _ same => by cases same) fun _ _ _ _ same => by cases same
  obtain ⟨same, hd, -⟩ := leads.call attends
  have asked : w.metadata.request?.isSome = true := by
    rcases o.trail_of_leads leads attends _ _ removed with before | asked
    · rw [fresh] at before
      cases before
    · exact asked rfl
  obtain ⟨u, hu⟩ := Option.isSome_iff_exists.mp asked
  have request : w.request? = some (.ofText u) := by rw [Worker.request_eq, hu, Option.map_some]
  refine ⟨gone, same, ?_⟩
  rw [due_of_request present request hd, request, Worker.request_eq x, asks, Option.map_some,
    Request.call_inj, Option.some_inj]

/-! ### A request that gets lost -/

/-- A worker in a healthy cluster, whose user asks for a reconciliation. -/
def asked : Api :=
  (Site.founded (Trial.Fixture.requesting "reconcile"
    (Trial.Fixture.worker "tenant" "pool" default))).api

/-- The surroundings of an attempt that has the API for itself, and sees the worker as it was
when the user asked for a reconciliation. -/
def late : Around where
  cache _ := asked.caches
  tell _ := default
  others := Crossing.api
  fails _ _ := none

/-- The worker after its user has asked for something else. -/
def changed (v : String) : Crossing :=
  ⟨{ asked with
    workers := (asked.workers.modify ⟨"tenant", "pool"⟩ (Trial.Fixture.requesting v)).2 }, 0, []⟩

/-- A request that nobody knows counts as one for a reconciliation, and so it is carried out. -/
theorem executes_unknown :
    ∃ (c : Command) (next : Reply → Plan) (s : Crossing),
      (plan ⟨"tenant", "pool"⟩).advance late.surroundings (changed "repair") =
        (.actuate c next, s) ∧ c.call = (Request.ofText "repair").call := by
  have reached : ∃ c next s, (plan ⟨"tenant", "pool"⟩).advance late.surroundings
      (changed "repair") = (.actuate c next, s) ∧
        (.clearRequest ⟨"tenant", "pool"⟩, (changed "repair").api) ∈ s.trail :=
    ⟨_, _, _, rfl, List.mem_cons_self⟩
  obtain ⟨c, next, s, reached, removed⟩ := reached
  obtain ⟨-, -, executes⟩ := late.executes_iff (k := ⟨"tenant", "pool"⟩) (v := "repair")
    rfl rfl rfl reached removed rfl rfl rfl
  exact ⟨c, next, s, reached, executes.mpr rfl⟩

/-- A user asks for a migration after the cache was read. The attempt removes that request,
reconciles the worker and ends well, and the worker is due for nothing but reconciling. -/
theorem request_lost :
    ∃ (w x y : Worker) (c : Command) (next : Reply → Plan) (s s' : Crossing),
      (late.cache (changed "migrate")).workers.get? ⟨"tenant", "pool"⟩ = some w ∧
      (changed "migrate").api.workers.get? ⟨"tenant", "pool"⟩ = some x ∧
      (w.metadata.uid = x.metadata.uid ∧ w.metadata.created = x.metadata.created ∧
        w.metadata.resourceVersion < x.metadata.resourceVersion) ∧
      (w.metadata.isDeleting = false ∧ x.metadata.isDeleting = false) ∧
      x.metadata.request? = some "migrate" ∧
      (plan ⟨"tenant", "pool"⟩).advance late.surroundings (changed "migrate") =
        (.actuate c next, s) ∧
      (.clearRequest ⟨"tenant", "pool"⟩, (changed "migrate").api) ∈ s.trail ∧
      c.call = .reconcile ∧
      (next (.ok none)).advance late.surroundings s = (.done (.ok .done), s') ∧
      s'.api.workers.get? ⟨"tenant", "pool"⟩ = some y ∧ due y = some .reconcile :=
  ⟨_, _, _, _, _, _, _, rfl, rfl, ⟨rfl, rfl, by decide⟩, ⟨rfl, rfl⟩, rfl, rfl,
    List.mem_cons_self, rfl, rfl, rfl, rfl⟩

end Around

end PoolControl
