import Mathlib.Data.List.Nodup
import PoolControl.Queue.Bell

/-! What a bell does to its callers.

A bell knows of the callers that wait and of those that it woke. Ringing makes no caller known or
forgotten (`enrolled_ring`, `enrolled_ringAll`), so that a caller is known once it enrolls
until it runs or leaves. What rings for one caller are worth is the number of callers woken alone:
a ring adds one as long as somebody waits (`alone_ring`), and a caller that leaves takes none away
from those who wait (`alone_le_leave`). -/
namespace PoolControl.Bell

/-- The callers that a bell knows of. -/
def enrolled (b : Bell) : List Nat := b.waiting ++ b.woken.map (·.1)

/-- How many callers were woken alone and have not run since. -/
def alone (b : Bell) : Nat := b.woken.countP (·.2 = .alone)

variable {b : Bell} {c : Nat}

/-- A caller that finds a permit takes it and is not enrolled. -/
theorem enroll_of_permit (h : b.permit = true) (c : Nat) :
    b.enroll c = { b with permit := false } :=
  if_pos h

/-! ### Who waits -/

/-- Whoever rings for one caller, nobody starts to wait. -/
theorem waiting_ring (h : b.waiting = []) : b.ring.waiting = [] := by
  simp [ring, h]

theorem mem_waiting_of_ring {x : Nat} (h : x ∈ b.ring.waiting) : x ∈ b.waiting := by
  unfold ring at h
  split at h
  case h_1 => exact h
  case h_2 c rest waiting =>
    rw [waiting]
    exact List.mem_cons_of_mem c h

theorem waiting_leave (h : b.waiting.filter (· ≠ c) = []) : (b.leave c).waiting = [] := by
  unfold leave
  split
  · exact waiting_ring h
  · exact h

theorem mem_waiting_of_leave {x : Nat} (h : x ∈ (b.leave c).waiting) : x ∈ b.waiting ∧ x ≠ c := by
  have rest : x ∈ b.waiting.filter (· ≠ c) := by
    unfold leave at h
    split at h
    · exact mem_waiting_of_ring h
    · exact h
  simpa using rest

/-- A caller that comes and goes leaves nobody behind. -/
theorem waiting_leave_enroll (h : b.waiting = []) (c : Nat) :
    ((b.enroll c).leave c).waiting = [] := by
  refine waiting_leave ?_
  unfold enroll
  split <;> simp [h]

theorem mem_waiting_of_enroll {x : Nat} (h : x ∈ (b.enroll c).waiting) : x ∈ b.waiting ∨ x = c := by
  unfold enroll at h
  split at h
  · exact .inl h
  · simpa using h

/-! ### Who is known -/

theorem isWoken_iff : b.isWoken c = true ↔ c ∈ b.woken.map (·.1) := by
  simp [isWoken]

theorem mem_enrolled : c ∈ b.enrolled ↔ c ∈ b.waiting ∨ b.isWoken c = true := by
  rw [isWoken_iff]
  exact List.mem_append

/-- Nobody is woken who still waits. -/
theorem not_waiting_of_woken (single : b.enrolled.Nodup) (h : b.isWoken c = true) :
    c ∉ b.waiting :=
  fun waits => (List.nodup_append.mp single).2.2 c waits c (isWoken_iff.mp h) rfl

theorem enrolled_ring (b : Bell) : b.ring.enrolled.Perm b.enrolled := by
  unfold ring enrolled
  split
  case h_1 => rfl
  case h_2 c rest waiting =>
    rw [waiting, List.map_append, ← List.append_assoc]
    exact List.perm_append_singleton c _

theorem enrolled_ringAll (b : Bell) : b.ringAll.enrolled.Perm b.enrolled := by
  have woken : b.ringAll.woken.map (·.1) = b.woken.map (·.1) ++ b.waiting := by
    simp [ringAll, Function.comp_def]
  show (b.ringAll.woken.map (·.1)).Perm _
  rw [woken]
  exact List.perm_append_comm

theorem enrolled_enroll (b : Bell) (c : Nat) :
    (b.enroll c).enrolled.Perm ((if b.permit then [] else [c]) ++ b.enrolled) := by
  unfold enroll enrolled
  split
  · rfl
  · rw [List.append_assoc]
    exact List.perm_middle

theorem mem_enrolled_enroll {x : Nat} :
    x ∈ (b.enroll c).enrolled ↔ (b.permit = false ∧ x = c) ∨ x ∈ b.enrolled := by
  rw [(enrolled_enroll b c).mem_iff]
  cases b.permit <;> simp

theorem enrolled_resume (h : c ∉ b.waiting) :
    (b.resume c).enrolled = b.enrolled.filter (· ≠ c) := by
  have waiting : b.waiting.filter (· ≠ c) = b.waiting :=
    List.filter_eq_self.mpr fun x hx => decide_eq_true fun e => h (e ▸ hx)
  unfold resume enrolled
  rw [List.filter_append, waiting, List.filter_map]
  rfl

theorem mem_enrolled_resume {x : Nat} (h : c ∉ b.waiting) :
    x ∈ (b.resume c).enrolled ↔ x ∈ b.enrolled ∧ x ≠ c := by
  rw [enrolled_resume h]
  simp

/-- A caller that the bell does not know of has nothing to take note of. -/
theorem resume_of_not_enrolled (h : c ∉ b.enrolled) : b.resume c = b := by
  have woken : b.woken.filter (·.1 ≠ c) = b.woken := List.filter_eq_self.mpr fun e he =>
    decide_eq_true fun same =>
      h (List.mem_append_right _ (same ▸ List.mem_map_of_mem (f := (·.1)) he))
  unfold resume
  rw [woken]

theorem enrolled_leave (b : Bell) (c : Nat) :
    (b.leave c).enrolled.Perm (b.enrolled.filter (· ≠ c)) := by
  have rest : (resume c { b with waiting := b.waiting.filter (· ≠ c) }).enrolled =
      b.enrolled.filter (· ≠ c) := by
    unfold resume enrolled
    rw [List.filter_append, List.filter_map]
    rfl
  unfold leave
  rw [← rest]
  split
  · exact enrolled_ring _
  · rfl

theorem mem_enrolled_leave {x : Nat} :
    x ∈ (b.leave c).enrolled ↔ x ∈ b.enrolled ∧ x ≠ c := by
  rw [(enrolled_leave b c).mem_iff]
  simp

/-! ### Who was woken alone -/

theorem alone_ring (h : b.waiting ≠ []) : b.ring.alone = b.alone + 1 := by
  unfold ring alone
  split
  case h_1 nobody => exact absurd nobody h
  case h_2 => simp

theorem alone_enroll (b : Bell) (c : Nat) : (b.enroll c).alone = b.alone := by
  unfold enroll
  split <;> rfl

theorem alone_resume (b : Bell) (c : Nat) :
    b.alone = (b.resume c).alone + (b.woken.filter (·.1 = c)).countP (·.2 = .alone) := by
  unfold alone resume
  rw [List.countP_eq_countP_filter_add b.woken _ (·.1 ≠ c)]
  simp

/-- A caller that runs was woken once. -/
theorem alone_le_resume (single : b.enrolled.Nodup) (c : Nat) :
    b.alone ≤ (b.resume c).alone + 1 := by
  have once : (b.woken.filter (·.1 = c)).length ≤ 1 := by
    have := List.nodup_iff_count_le_one.mp (List.nodup_append.mp single).2.1 c
    rwa [List.count_eq_countP, List.countP_map, List.countP_eq_length_filter] at this
  rw [alone_resume b c]
  exact Nat.add_le_add_left (Nat.le_trans List.countP_le_length once) _

/-- A ring meant for a caller that leaves goes to the next one, unless nobody waits. -/
theorem alone_le_leave (single : b.enrolled.Nodup) (h : (b.leave c).waiting ≠ []) :
    b.alone ≤ (b.leave c).alone := by
  unfold leave at *
  split
  case isTrue woken =>
    rw [if_pos woken] at h
    rw [alone_ring fun nobody => h (waiting_ring nobody)]
    exact alone_le_resume single c
  case isFalse quiet =>
    have none_ : (b.woken.filter (·.1 = c)).countP (·.2 = .alone) = 0 := by
      refine List.countP_eq_zero.mpr fun e he alone => quiet ?_
      obtain ⟨mem, same⟩ := List.mem_filter.mp he
      have : e = (c, .alone) := Prod.ext (of_decide_eq_true same) (of_decide_eq_true alone)
      exact List.contains_iff_mem.mpr (this ▸ mem)
    rw [alone_resume b c, none_]
    exact Nat.le_refl _

end PoolControl.Bell
