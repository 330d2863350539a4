import PoolControl.Json.Reader
import PoolControl.Json.Writer

/-! Texts that need no escapes.

A character that is neither a quote nor a backslash nor a control character stands for itself in a
string, so that a text of such characters is written between quotes as it is
(`quoted_of_isPlain`), and read as it was written (`read_quoted_of_isPlain`). -/
namespace PoolControl.Json

/-- A character that stands for itself. -/
structure IsPlain (c : Char) : Prop where
  ne_quote : c ≠ '"'
  ne_backslash : c ≠ '\\'
  printable : 0x20 ≤ c.toNat

instance : DecidablePred IsPlain := fun c =>
  decidable_of_iff (c ≠ '"' ∧ c ≠ '\\' ∧ 0x20 ≤ c.toNat)
    ⟨fun h => ⟨h.1, h.2.1, h.2.2⟩, fun h => ⟨h.1, h.2, h.3⟩⟩

variable {cs : List Char}

theorem escaped_of_isPlain {c : Char} (h : IsPlain c) : escaped c = [c] := by
  have printable := h.printable
  unfold escaped
  split
  · exact absurd rfl h.ne_quote
  · exact absurd rfl h.ne_backslash
  · exact absurd printable (by decide)
  · exact absurd printable (by decide)
  · exact absurd printable (by decide)
  · exact absurd printable (by decide)
  · exact absurd printable (by decide)
  · exact if_neg (Nat.not_lt.mpr printable)

theorem quoted_of_isPlain (h : ∀ c ∈ cs, IsPlain c) :
    quoted (.ofList cs) = "\"" ++ .ofList cs ++ "\"" := by
  have same : cs.flatMap escaped = cs := by
    induction cs with
    | nil => rfl
    | cons c rest ih =>
      obtain ⟨head, tail⟩ := List.forall_mem_cons.mp h
      rw [List.flatMap_cons, escaped_of_isPlain head, ih tail]
      rfl
  rw [quoted, String.toList_ofList, same]

/-- Plain characters are read one by one up to the closing quote. -/
theorem readString_of_isPlain (h : ∀ c ∈ cs, IsPlain c) (sofar rest : List Char) :
    readString (some sofar) (cs ++ '"' :: rest) = some (some (sofar.reverse ++ cs), rest) := by
  induction cs generalizing sofar with
  | nil => simp [readString]
  | cons c cs ih =>
    obtain ⟨head, tail⟩ := List.forall_mem_cons.mp h
    rw [List.cons_append, readString, if_neg (Nat.not_lt.mpr head.printable), Option.map_some,
      ih tail, List.reverse_cons, List.append_assoc]
    · rfl
    -- No other case of the reader applies: they all start with a quote or a backslash.
    · exact head.ne_quote
    all_goals
      intros
      exact absurd ‹c = '\\'› head.ne_backslash

theorem read_quoted_of_isPlain (h : ∀ c ∈ cs, IsPlain c) :
    read ("\"" ++ .ofList cs ++ "\"") = some (.string (.ofList cs)) := by
  have chars : ("\"" ++ String.ofList cs ++ "\"").toList = '"' :: (cs ++ ['"']) := by simp
  have value (fuel depth : Nat) :
      readValue (fuel + 1) depth ('"' :: (cs ++ ['"'])) = some (.string (.ofList cs), []) := by
    rw [readValue, skipBlanks, List.dropWhile_cons_of_neg (by decide)]
    simp only [readString_of_isPlain h, Option.map_some, List.reverse_nil, List.nil_append]
  rw [read, chars]
  simp only [value]
  rfl

end PoolControl.Json
