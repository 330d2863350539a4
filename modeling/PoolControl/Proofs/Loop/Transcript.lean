import PoolControl.Proofs.Loop.Operation

/-! Attempts with a transcript.

A `Transcript` keeps an API with a backend, and line by line what an attempt has done: the writes
with their answers, and the calls with the API as each of them found it. The caches are the
API's own stores. A `Setting` is what else decides about the course of an attempt: the times that
the clock tells, the writes that fail, and what a call is answered, which may change the API
as well.

What a plan promises whatever it is answered is then a statement about transcripts: `asks_play`
for what holds at its calls, `calls_play` for their number, and `yields_play` for what becomes
of an attempt when a write has failed. -/
namespace PoolControl

/-- A line of a transcript. -/
inductive Line
  | wrote (x : Write) (r : Except ApiError Unit)
  /-- A call was made, with the API like this. -/
  | called (c : Command) (a : Api)

namespace Line

def isCall : Line → Bool
  | called _ _ => true
  | wrote _ _ => false

/-- Whether a write failed. -/
def failed : Line → Bool
  | wrote _ (.error _) => true
  | _ => false

/-- No line tells of a failure. -/
def Clean (ls : List Line) : Prop := ∀ l ∈ ls, l.failed = false

variable {ls pre post : List Line} {l l' : Line}

theorem Clean.concat (h : Clean ls) (hl : l.failed = false) : Clean (ls ++ [l]) := by
  intro l' mem
  rcases List.mem_append.mp mem with old | new
  · exact h l' old
  · rw [List.mem_singleton.mp new]
    exact hl

theorem Clean.not_failed (h : Clean ls) (he : ls = pre ++ l :: post) : ¬ l.failed = true := by
  have mem : l ∈ ls := he ▸ List.mem_append_right _ List.mem_cons_self
  rw [h l mem]
  exact Bool.false_ne_true

/-- If only the last line can be a failure, then nothing follows a failure. -/
theorem Clean.eq_nil_of_failed (h : Clean ls) (he : ls ++ [l'] = pre ++ l :: post)
    (failed : l.failed = true) : post = [] := by
  rcases List.eq_nil_or_concat post with rfl | ⟨rest, l'', rfl⟩
  · rfl
  · rw [List.concat_eq_append, ← List.cons_append, ← List.append_assoc] at he
    exact absurd failed (h.not_failed (List.append_inj' he rfl).1)

end Line

structure Transcript (τ : Type) where
  api : Api
  backend : τ
  /-- How often the clock was read. -/
  readings : Nat
  /-- What was done, oldest line first. -/
  lines : List Line

/-- What decides about the course of an attempt, besides the API. -/
structure Setting (τ : Type) where
  /-- The times that the clock tells, by the number of readings. -/
  tell : Nat → Timestamp
  /-- The errors of writes that fail, by the number of lines before. -/
  fails : Nat → Write → Option ApiError
  /-- The reply to a call, or none if it panics, and what the call makes of the API. -/
  answer : Command → Api → τ → Option Reply × Api × τ

namespace Transcript

variable {τ : Type}

/-- The transcript before an attempt. -/
def opening (a : Api) (t : τ) : Transcript τ := ⟨a, t, 0, []⟩

/-- The transcript after a write. -/
def wrote (s : Transcript τ) (x : Write) (r : Except ApiError Unit) (a : Api) : Transcript τ :=
  { s with api := a, lines := s.lines ++ [.wrote x r] }

/-- The transcript after a call. -/
def called (s : Transcript τ) (c : Command) (a : Api) (t : τ) : Transcript τ :=
  { s with api := a, backend := t, lines := s.lines ++ [.called c s.api] }

end Transcript

namespace Setting

variable {τ : Type}

def surroundings (o : Setting τ) : Surroundings (Transcript τ) where
  look s := s.api.caches
  clock s := (o.tell s.readings, { s with readings := s.readings + 1 })
  write x s :=
    match o.fails s.lines.length x with
    | some e => (.error e, s.wrote x (.error e) s.api)
    | none => ((s.api.write x).1, s.wrote x (s.api.write x).1 (s.api.write x).2)

def actuator (o : Setting τ) (c : Command) (s : Transcript τ) : Option Reply × Transcript τ :=
  let (r, a, t) := o.answer c s.api s.backend
  (r, s.called c a t)

/-- Runs a plan to its end. -/
def play (o : Setting τ) (p : Plan) (s : Transcript τ) : Ending × Transcript τ :=
  p.run o.surroundings o.actuator s

theorem play_clock (o : Setting τ) (next : Timestamp → Plan) (s : Transcript τ) :
    o.play (.clock next) s =
      o.play (next (o.tell s.readings)) { s with readings := s.readings + 1 } :=
  rfl

/-- A write that fails changes nothing. -/
theorem play_write (o : Setting τ) (x : Write) (next : Except ApiError Unit → Plan)
    (s : Transcript τ) :
    o.play (.write x next) s =
      match o.fails s.lines.length x with
      | some e => o.play (next (.error e)) (s.wrote x (.error e) s.api)
      | none =>
        o.play (next (s.api.write x).1) (s.wrote x (s.api.write x).1 (s.api.write x).2) := by
  simp only [play, Plan.run, surroundings]
  cases o.fails s.lines.length x <;> rfl

/-- A call that panics ends the attempt. -/
theorem play_actuate (o : Setting τ) (c : Command) (next : Reply → Plan) (s : Transcript τ) :
    o.play (.actuate c next) s =
      match o.answer c s.api s.backend with
      | (some r, a, t) => o.play (next r) (s.called c a t)
      | (none, a, t) => (.panicked, s.called c a t) := by
  rcases h : o.answer c s.api s.backend with ⟨_ | r, a, t⟩ <;>
    simp only [play, Plan.run, actuator, h]

end Setting

/-! ### What plans promise -/

namespace Plan

/-- Whenever a plan comes to a call, starting from `a`, the call and the API are in `Q`. -/
def Asks (Q : Command → Api → Prop) : Plan → Api → Prop
  | .done _, _ => True
  | .look next, a => Asks Q (next a.caches) a
  | .clock next, a => ∀ now, Asks Q (next now) a
  | .write x next, a => Asks Q (next (a.write x).1) (a.write x).2 ∧ ∀ e, Asks Q (next (.error e)) a
  | .actuate c next, a => Q c a ∧ ∀ r a', Asks Q (next r) a'

/-- When a write fails a plan ends with an error. -/
def Yields : Plan → Prop
  | .done _ => True
  | .look next => ∀ caches, Yields (next caches)
  | .clock next => ∀ now, Yields (next now)
  | .write _ next => (next (.ok ())).Yields ∧ ∀ e, ∃ err, next (.error e) = .done (.error err)
  | .actuate _ next => ∀ r, Yields (next r)

variable {p next : Plan} {Q : Command → Api → Prop} {a : Api}

/-- A plan without calls promises anything of them. -/
theorem CallsAtMost.asks (h : p.CallsAtMost 0) : p.Asks Q a := by
  induction p generalizing a with
  | done r => trivial
  | look next ih => exact ih _ (h _)
  | clock next ih => exact fun now => ih now (h now)
  | write x next ih => exact ⟨ih _ (h _), fun e => ih _ (h _)⟩
  | actuate c next => exact h.elim

theorem yields_write (h : next.Yields) (x : Write) : (write x (unlessError next)).Yields :=
  ⟨h, fun e => ⟨e.toReconcileError, rfl⟩⟩

end Plan

/-! ### Promises kept -/

namespace Setting

variable {τ : Type} (o : Setting τ) {p : Plan} {s : Transcript τ}

/-- **What a plan promises of its calls holds of every call on the transcript.** -/
theorem asks_play {Q : Command → Api → Prop} (h : p.Asks Q s.api)
    (before : ∀ c a, Line.called c a ∈ s.lines → Q c a) :
    ∀ c a, Line.called c a ∈ (o.play p s).2.lines → Q c a := by
  have wrote {s : Transcript τ} (before : ∀ c a, Line.called c a ∈ s.lines → Q c a) (x : Write)
      (r : Except ApiError Unit) (a' : Api) :
      ∀ c a, Line.called c a ∈ (s.wrote x r a').lines → Q c a := by
    intro c a mem
    rcases List.mem_append.mp mem with old | new
    · exact before c a old
    · cases List.mem_singleton.mp new
  induction p generalizing s with
  | done r => exact before
  | look next ih => exact ih _ h before
  | clock next ih => exact ih _ (h _) before
  | write x next ih =>
    rw [play_write]
    split
    · exact ih _ (h.2 _) (wrote before _ _ _)
    · exact ih _ h.1 (wrote before _ _ _)
  | actuate c next ih =>
    obtain ⟨now, later⟩ := h
    have called (a' : Api) (t : τ) :
        ∀ c' a, Line.called c' a ∈ (s.called c a' t).lines → Q c' a := by
      intro c' a mem
      rcases List.mem_append.mp mem with old | new
      · exact before c' a old
      · cases List.mem_singleton.mp new
        exact now
    rw [play_actuate]
    split
    · exact ih _ (later _ _) (called _ _)
    · exact called _ _

/-- The calls on a transcript are no more than the plan makes. -/
theorem calls_play {n : Nat} (h : p.CallsAtMost n) :
    (o.play p s).2.lines.countP Line.isCall ≤ s.lines.countP Line.isCall + n := by
  have wrote (s : Transcript τ) (x : Write) (r : Except ApiError Unit) (a : Api) :
      (s.wrote x r a).lines.countP Line.isCall = s.lines.countP Line.isCall :=
    List.countP_append
  have called (s : Transcript τ) (c : Command) (a : Api) (t : τ) :
      (s.called c a t).lines.countP Line.isCall = s.lines.countP Line.isCall + 1 :=
    List.countP_append
  induction p generalizing s n with
  | done r => exact Nat.le_add_right _ _
  | look next ih => exact ih _ (h _)
  | clock next ih => exact ih (s := { s with readings := s.readings + 1 }) _ (h _)
  | write x next ih =>
    rw [play_write]
    split
    · rw [← wrote s x _ s.api]
      exact ih _ (h _)
    · rw [← wrote s x _ (s.api.write x).2]
      exact ih _ (h _)
  | actuate c next ih =>
    cases n with
    | zero => exact h.elim
    | succ n =>
      rw [play_actuate]
      split
      · rename_i r a t _
        refine Nat.le_trans (ih r (h r)) (Nat.le_of_eq ?_)
        rw [called, Nat.add_assoc, Nat.add_comm 1 n]
      · rw [called]
        omega

/-- **A failed write is the last line**, and the attempt ends with an error. -/
theorem yields_play (h : p.Yields) (clean : Line.Clean s.lines) {pre post : List Line} {l : Line}
    (he : (o.play p s).2.lines = pre ++ l :: post) (failed : l.failed = true) :
    post = [] ∧ ∃ e, (o.play p s).1 = .result (.error e) := by
  induction p generalizing s with
  | done r => exact absurd failed (clean.not_failed he)
  | look next ih => exact ih _ (h _) clean he
  | clock next ih => exact ih (s := { s with readings := s.readings + 1 }) _ (h _) clean he
  | write x next ih =>
    obtain ⟨go, stop⟩ := h
    have ends (e : ApiError) (a : Api)
        (he : (o.play (next (.error e)) (s.wrote x (.error e) a)).2.lines = pre ++ l :: post) :
        post = [] ∧ ∃ err, (o.play (next (.error e)) (s.wrote x (.error e) a)).1 =
          .result (.error err) := by
      obtain ⟨err, stopped⟩ := stop e
      rw [stopped] at he ⊢
      exact ⟨clean.eq_nil_of_failed he failed, err, rfl⟩
    rw [play_write] at he ⊢
    split at he
    · exact ends _ _ he
    · cases hr : (s.api.write x).1 with
      | ok u =>
        rw [hr] at he
        exact ih _ go (clean.concat rfl) he
      | error e =>
        rw [hr] at he
        exact ends _ _ he
  | actuate c next ih =>
    rw [play_actuate] at he ⊢
    split at he
    · exact ih _ (h _) (clean.concat rfl) he
    · exact absurd failed ((clean.concat (l := .called c s.api) rfl).not_failed he)

end Setting

end PoolControl
