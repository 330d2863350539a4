/-! Splitting a text at the first occurrence of a separator.

`splitFirst_eq_some_iff` says the split is the one whose left part is free of the
separator, and `splitFirst_eq_none_iff` that there is none exactly when the separator
does not occur. -/
namespace PoolControl.Text

/-- The parts before and after the first `c`. -/
def splitFirst (c : Char) : List Char → Option (List Char × List Char)
  | [] => none
  | x :: rest =>
    if x = c then some ([], rest) else (splitFirst c rest).map fun p => (x :: p.1, p.2)

theorem splitFirst_eq_some_iff {c : Char} {s a b : List Char} :
    splitFirst c s = some (a, b) ↔ s = a ++ c :: b ∧ c ∉ a := by
  induction s generalizing a with
  | nil => simp [splitFirst]
  | cons x rest ih =>
    by_cases hx : x = c
    · subst hx
      cases a with
      | nil => simp [splitFirst, eq_comm]
      | cons y a => simp [splitFirst]; grind
    · cases a with
      | nil => simp [splitFirst, hx]
      | cons y a =>
        simp only [splitFirst, hx, if_false, Option.map_eq_some_iff, Prod.exists, Prod.mk.injEq,
          List.cons.injEq, List.cons_append, List.mem_cons, not_or]
        grind

theorem splitFirst_eq_none_iff {c : Char} {s : List Char} : splitFirst c s = none ↔ c ∉ s := by
  induction s with
  | nil => simp [splitFirst]
  | cons x rest ih =>
    by_cases hx : x = c
    · simp [splitFirst, hx]
    · simp [splitFirst, hx, ih, Ne.symm hx]

end PoolControl.Text
