/-! Systems that go on act by act.

A `System` says what an act makes of a state, and when an act can happen. A run is a sequence of
acts, and it is lawful if each of them can happen when its turn comes. Queues with their callers,
controllers and the API they work on are systems; what holds of runs as such is told here. -/
namespace PoolControl

structure System (σ α : Type) where
  next : σ → α → σ
  Allows : σ → α → Prop

namespace System

variable {σ α : Type} (m : System σ α)

/-- What a run makes of a state. -/
def run (s : σ) : List α → σ
  | [] => s
  | a :: rest => run (m.next s a) rest

/-- Every act of a run is as `P` has it where it happens. -/
def Throughout (P : σ → α → Prop) (s : σ) : List α → Prop
  | [] => True
  | a :: rest => P s a ∧ Throughout P (m.next s a) rest

/-- Every act of a run can happen when its turn comes. -/
def Lawful (s : σ) (l : List α) : Prop := m.Throughout m.Allows s l

instance decidableThroughout (P : σ → α → Prop) [∀ s, DecidablePred (P s)] (s : σ) :
    (l : List α) → Decidable (m.Throughout P s l)
  | [] => .isTrue trivial
  | a :: rest => @instDecidableAnd _ _ _ (decidableThroughout P (m.next s a) rest)

instance [∀ s, DecidablePred (m.Allows s)] (s : σ) : DecidablePred (m.Lawful s) :=
  decidableThroughout m m.Allows s

variable {m} {P : σ → α → Prop} {s : σ} {l l' : List α}

variable (m) in
theorem run_append (s : σ) (l l' : List α) : m.run s (l ++ l') = m.run (m.run s l) l' := by
  induction l generalizing s with
  | nil => rfl
  | cons a rest ih => exact ih _

variable (m) in
theorem throughout_append (P : σ → α → Prop) (s : σ) (l l' : List α) :
    m.Throughout P s (l ++ l') ↔ m.Throughout P s l ∧ m.Throughout P (m.run s l) l' := by
  induction l generalizing s with
  | nil => exact (and_iff_right trivial).symm
  | cons a rest ih => simp only [List.cons_append, Throughout, run, ih, and_assoc]

theorem throughout_of_forall (h : ∀ a ∈ l, ∀ s, P s a) (s : σ) : m.Throughout P s l := by
  induction l generalizing s with
  | nil => trivial
  | cons a rest ih =>
    exact ⟨h a (List.mem_cons_self ..) s, ih (fun a mem => h a (List.mem_cons_of_mem _ mem)) _⟩

/-- **What every act keeps holds along a run.** -/
theorem Throughout.keeps {I : σ → Prop} (hl : m.Throughout P s l)
    (step : ∀ {s a}, I s → P s a → I (m.next s a)) (h : I s) : I (m.run s l) := by
  induction l generalizing s with
  | nil => exact h
  | cons a rest ih => exact ih hl.2 (step h hl.1)

variable (m) in
/-- What the acts of a run keep in every state holds along it. -/
theorem run_keeps {I : σ → Prop} (h : I s) (step : ∀ {s a}, a ∈ l → I s → I (m.next s a)) :
    I (m.run s l) :=
  (throughout_of_forall (P := fun _ a => a ∈ l) (fun _ mem _ => mem) s).keeps
    (fun h mem => step mem h) h

/-- What holds of two kinds of acts holds of acts that are of both. -/
theorem Throughout.and {Q : σ → α → Prop} (hP : m.Throughout P s l) (hQ : m.Throughout Q s l) :
    m.Throughout (fun s a => P s a ∧ Q s a) s l := by
  induction l generalizing s with
  | nil => trivial
  | cons a rest ih => exact ⟨⟨hP.1, hQ.1⟩, ih hP.2 hQ.2⟩

end System

end PoolControl
