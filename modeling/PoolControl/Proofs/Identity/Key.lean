import PoolControl.Identity.Key

/-! Which texts are keys.

A key can be found again in its text if the only slash there is the one between its parts
(`Legible`). Reading accepts exactly the texts of such keys (`read_eq_ok_iff`), and these are the
texts with one slash and something on both sides of it (`divided_iff`). Everything else is refused
as a whole (`read_eq_error_iff`). -/
namespace PoolControl.Key

/-- Both parts can be told apart in the text. -/
structure Legible (k : Key) : Prop where
  ns_ne : k.ns ≠ ""
  name_ne : k.name ≠ ""
  slash_not_mem_ns : '/' ∉ k.ns.toList
  slash_not_mem_name : '/' ∉ k.name.toList

/-- One slash, and something on both sides of it. -/
def Divided (s : String) : Prop :=
  s.toList.count '/' = 1 ∧ ∃ a b : List Char, a ≠ [] ∧ b ≠ [] ∧ s.toList = a ++ '/' :: b

theorem toList_text (k : Key) : k.text.toList = k.ns.toList ++ '/' :: k.name.toList := by
  simp [text]

theorem text_ne_empty (k : Key) : k.text ≠ "" := by
  intro h
  have nothing := congrArg String.toList h
  rw [toList_text] at nothing
  simp at nothing

/-- The texts with one slash are those of legible keys. -/
theorem divided_iff {s : String} : Divided s ↔ ∃ k : Key, k.text = s ∧ k.Legible := by
  constructor
  · rintro ⟨one, a, b, some_a, some_b, parts⟩
    rw [parts, List.count_append, List.count_cons_self] at one
    have free_a : '/' ∉ a := List.count_eq_zero.mp (by omega)
    have free_b : '/' ∉ b := List.count_eq_zero.mp (by omega)
    refine ⟨⟨.ofList a, .ofList b⟩, ?_, ?_⟩
    · rw [← String.toList_inj, toList_text, parts, String.toList_ofList, String.toList_ofList]
    · constructor <;> simpa [← String.toList_eq_nil_iff]
  · rintro ⟨k, rfl, legible⟩
    have free_ns := List.count_eq_zero.mpr legible.slash_not_mem_ns
    have free_name := List.count_eq_zero.mpr legible.slash_not_mem_name
    refine ⟨?_, k.ns.toList, k.name.toList, ?_, ?_, toList_text k⟩
    · rw [toList_text, List.count_append, List.count_cons_self, free_ns, free_name]
    · exact mt String.toList_eq_nil_iff.mp legible.ns_ne
    · exact mt String.toList_eq_nil_iff.mp legible.name_ne

/-- What is read is what was written, and only legible keys are read. -/
theorem read_eq_ok_iff {s : String} {k : Key} : read s = .ok k ↔ k.text = s ∧ k.Legible := by
  constructor
  · intro h
    rw [read] at h
    split at h
    · cases h
    split at h
    · rename_i ns name parts
      obtain ⟨parts, free⟩ := Text.splitFirst_eq_some_iff.mp parts
      split at h
      · cases h
      rename_i whole
      cases h
      obtain ⟨some_ns, some_name, free_name⟩ := by simpa only [not_or] using whole
      refine ⟨?_, ?_⟩
      · rw [← String.toList_inj, toList_text, parts, String.toList_ofList, String.toList_ofList]
      · constructor <;> simpa [← String.toList_eq_nil_iff]
    · cases h
  · rintro ⟨rfl, legible⟩
    have parts : Text.splitFirst '/' k.text.toList = some (k.ns.toList, k.name.toList) :=
      Text.splitFirst_eq_some_iff.mpr ⟨toList_text k, legible.slash_not_mem_ns⟩
    have whole : ¬ (k.ns.toList = [] ∨ k.name.toList = [] ∨ '/' ∈ k.name.toList) := by
      rw [String.toList_eq_nil_iff, String.toList_eq_nil_iff]
      simp [legible.ns_ne, legible.name_ne, legible.slash_not_mem_name]
    rw [read, if_neg (mt String.isEmpty_iff.mp k.text_ne_empty), parts]
    simp only [if_neg whole, String.ofList_toList]

/-- The empty text has an error of its own, and every other error carries the text. -/
theorem eq_of_read_error {s : String} {e : ReadError} (h : read s = .error e) :
    e = if s = "" then .empty else .malformed s := by
  rw [read] at h
  split at h
  · rename_i empty
    cases h
    rw [if_pos (String.isEmpty_iff.mp empty)]
  rename_i some_
  rw [if_neg (mt String.isEmpty_iff.mpr some_)]
  split at h
  · split at h
    · cases h
      rfl
    · cases h
  · cases h
    rfl

theorem read_eq_error_iff {s : String} {e : ReadError} :
    read s = .error e ↔ ¬ Divided s ∧ e = if s = "" then .empty else .malformed s := by
  constructor
  · intro refused
    refine ⟨fun divided => ?_, eq_of_read_error refused⟩
    obtain ⟨k, written⟩ := divided_iff.mp divided
    rw [read_eq_ok_iff.mpr written] at refused
    cases refused
  · rintro ⟨undivided, rfl⟩
    cases h : read s with
    | ok k => exact absurd (divided_iff.mpr ⟨k, read_eq_ok_iff.mp h⟩) undivided
    | error e => rw [eq_of_read_error h]

/-- No other key has the text of a legible one: it would have more than one slash in it. -/
theorem Legible.eq_of_text_eq {k k' : Key} (legible : k.Legible) (same : k'.text = k.text) :
    k' = k := by
  have divided := (divided_iff.mpr ⟨k, same.symm, legible⟩).1
  rw [toList_text, List.count_append, List.count_cons_self] at divided
  have free : '/' ∉ k'.ns.toList := List.count_eq_zero.mp (by omega)
  have parts := Text.splitFirst_eq_some_iff.mpr ⟨toList_text k, legible.slash_not_mem_ns⟩
  have parts' := Text.splitFirst_eq_some_iff.mpr ⟨toList_text k', free⟩
  rw [same, parts, Option.some_inj, Prod.mk.injEq, String.toList_inj, String.toList_inj] at parts'
  cases k
  cases k'
  rw [mk.injEq]
  exact ⟨parts'.1.symm, parts'.2.symm⟩

/-- **Reading is the inverse of writing, on exactly the texts and the keys it is one on.** A text
is read if it has one slash with something on both sides of it, and a key if its parts are not
empty and hold no slash; all others are refused, the empty text as such and the others as a
whole. No other key has the text of a legible one. -/
theorem read_inverts_text :
    (∀ s, (∃ k, read s = .ok k) ↔ Divided s) ∧ (∀ s k, read s = .ok k → k.text = s) ∧
      (∀ k : Key, read k.text = .ok k ↔ k.Legible) ∧
      (∀ k : Key, ¬ k.Legible → read k.text = .error (.malformed k.text)) ∧
      (∀ k k' : Key, k.Legible → k'.text = k.text → k' = k) ∧
      (∀ s e, read s = .error e ↔
        ¬ Divided s ∧ e = if s = "" then .empty else .malformed s) := by
  refine ⟨fun s => ?_, fun s k read_ => (read_eq_ok_iff.mp read_).1, fun k => ?_,
    fun k illegible => ?_, fun k k' => Legible.eq_of_text_eq, fun s e => read_eq_error_iff⟩
  · simp only [read_eq_ok_iff, divided_iff]
  · rw [read_eq_ok_iff, and_iff_right rfl]
  · refine read_eq_error_iff.mpr ⟨fun divided => ?_, (if_neg k.text_ne_empty).symm⟩
    obtain ⟨k', same, legible⟩ := divided_iff.mp divided
    exact illegible (legible.eq_of_text_eq same.symm ▸ legible)

end PoolControl.Key
