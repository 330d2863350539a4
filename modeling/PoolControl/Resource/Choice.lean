import PoolControl.Json.Record

/-! Finite choices with names.

A choice type lists its values and names each. `Choice.ofName?` is the inverse of
`Choice.name`, and a choice is written in JSON as its name. -/
namespace PoolControl

class Choice (α : Type) where
  all : List α
  name : α → String
  ofName? : String → Option α
  ofName?_name : ∀ x, ofName? (name x) = some x
  name_of_ofName? : ∀ {s x}, ofName? s = some x → name x = s

namespace Choice

variable {α : Type} [Choice α]

/-- Different values have different names. -/
theorem name_inj {x y : α} : name x = name y ↔ x = y := by
  refine ⟨fun h => Option.some.inj ?_, congrArg _⟩
  rw [← ofName?_name x, ← ofName?_name y, h]

def toJson (x : α) : Json := .string (name x)

def ofJson (j : Json) : Option α := j.asName.bind ofName?

end Choice

end PoolControl
