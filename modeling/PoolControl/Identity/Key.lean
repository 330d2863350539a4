import PoolControl.Text.Split

/-! Object keys.

An object is addressed by its namespace and its name, written `namespace/name`. Every
key can be written, but only a text with exactly one slash and something on both sides
of it can be read, so `Key.read` and `Key.text` are inverse on keys whose parts are
non-empty and free of slashes. Keys are ordered by namespace, then by name. -/
namespace PoolControl

structure Key where
  ns : String
  name : String
deriving DecidableEq, Inhabited

namespace Key

instance : Ord Key := ⟨compareLex (compareOn Key.ns) (compareOn Key.name)⟩

instance : Std.TransOrd Key :=
  inferInstanceAs (Std.TransCmp (compareLex (compareOn Key.ns) (compareOn Key.name)))

instance : Std.LawfulEqOrd Key where
  eq_of_compare {a b} h := by
    have h : (compare a.ns b.ns).then (compare a.name b.name) = .eq := h
    rw [Ordering.then_eq_eq] at h
    cases a
    cases b
    simp only [Std.compare_eq_iff_eq] at h
    simp [h.1, h.2]

/-- The written form of a key. -/
def text (k : Key) : String := k.ns ++ "/" ++ k.name

/-- Why a text is not a key. -/
inductive ReadError
  | empty
  /-- Not two non-empty parts around a single slash. -/
  | malformed (text : String)
deriving DecidableEq

def ReadError.message : ReadError → String
  | .empty => "ID cannot be empty"
  | .malformed s => "invalid object key '" ++ s ++ "': expected namespace/name"

/-- Reads `namespace/name`. -/
def read (s : String) : Except ReadError Key :=
  if s.isEmpty then .error .empty
  else match Text.splitFirst '/' s.toList with
    | some (ns, name) =>
      if ns = [] ∨ name = [] ∨ '/' ∈ name then .error (.malformed s)
      else .ok ⟨String.ofList ns, String.ofList name⟩
    | none => .error (.malformed s)

end Key

end PoolControl
