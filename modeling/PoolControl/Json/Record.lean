import PoolControl.Json.Basic

/-! Reading and writing typed values as JSON.

A record is written as an object. It is read from an object, in which unknown members are
skipped and a known name may stand only once, or from the array of its fields in order. A
field is required, optional or has a default: an optional field may be absent or null, one
with a default may be absent only. In an array only fields with a default may be missing,
from the end. A choice is written as its name, and also read from an object that maps its
name to null. Reading has one way to fail, so a reader is a partial function. -/
namespace PoolControl.Json

/-! ### Scalars -/

def asString : Json → Option String
  | .string s => some s
  | _ => none

def asBool : Json → Option Bool
  | .bool b => some b
  | _ => none

/-- An integer from `low` up to but not including `high`. -/
def asInt (low high : Int) : Json → Option Int
  | .int n => if low ≤ n ∧ n < high then some n else none
  | _ => none

/-- A signed 64-bit integer. -/
def asInt64 (j : Json) : Option Int := asInt (-9223372036854775808) 9223372036854775808 j

/-- An unsigned 32-bit integer. -/
def asNat32 (j : Json) : Option Nat := (asInt 0 4294967296 j).map Int.toNat

/-- An unsigned 64-bit integer. -/
def asNat64 (j : Json) : Option Nat := (asInt 0 18446744073709551616 j).map Int.toNat

def ofNat (n : Nat) : Json := .int n

/-- The name of a choice. -/
def asName : Json → Option String
  | .string s => some s
  | .object [(s, .null)] => some s
  | _ => none

/-! ### Collections -/

/-- Reads every item. -/
def readAll {α : Type} (read : Json → Option α) : List Json → Option (List α)
  | [] => some []
  | j :: rest =>
    match read j, readAll read rest with
    | some x, some xs => some (x :: xs)
    | _, _ => none

def asList {α : Type} (read : Json → Option α) : Json → Option (List α)
  | .array items => readAll read items
  | _ => none

def ofList {α : Type} (write : α → Json) (xs : List α) : Json := .array (xs.map write)

variable {α : Type} {β : Type} [Ord α] [Std.TransOrd α] [Std.LawfulEqOrd α]

/-- Reads the bindings of a map into `m`, a later one of a key over an earlier one. -/
def readBindings (key : String → Option α) (read : Json → Option β) (m : OrderedMap α β) :
    List (String × Json) → Option (OrderedMap α β)
  | [] => some m
  | (n, j) :: rest =>
    match key n, read j with
    | some k, some x => readBindings key read (m.insert k x) rest
    | _, _ => none

def asMap (key : String → Option α) (read : Json → Option β) : Json → Option (OrderedMap α β)
  | .object members => readBindings key read ∅ members
  | _ => none

omit [Std.TransOrd α] [Std.LawfulEqOrd α] in
def ofMap (key : α → String) (write : β → Json) (m : OrderedMap α β) : Json :=
  .object (m.toList.map fun b => (key b.1, write b.2))

/-- A map from texts. -/
def asDictionary {β : Type} (read : Json → Option β) : Json → Option (OrderedMap String β) :=
  asMap some read

def ofDictionary {β : Type} (write : β → Json) : OrderedMap String β → Json := ofMap id write

/-! ### Records -/

/-- The fields of a record as they were found: those of an object by name, or those of an
array by position. -/
structure Fields where
  values : List (Option Json)
  positional : Bool

/-- How often a name occurs. -/
def occurrences (name : String) (members : List (String × Json)) : Nat :=
  members.countP (·.1 == name)

/-- Finds the fields of the given names. -/
def fields (names : List String) : Json → Option Fields
  | .object members =>
    if names.all fun n => occurrences n members ≤ 1 then
      some ⟨names.map fun n => member? n members, false⟩
    else none
  | .array items =>
    if items.length ≤ names.length then
      some ⟨items.map some ++ List.replicate (names.length - items.length) none, true⟩
    else none
  | _ => none

namespace Fields

/-- The field at a position of the list of names. -/
def at? (f : Fields) (i : Nat) : Option Json := (f.values[i]?).join

/-- A field that must be present. -/
def required {γ : Type} (f : Fields) (i : Nat) (read : Json → Option γ) : Option γ :=
  (f.at? i).bind read

/-- A field that may be absent or null. -/
def optional {γ : Type} (f : Fields) (i : Nat) (read : Json → Option γ) : Option (Option γ) :=
  match f.at? i with
  | none => if f.positional then none else some none
  | some .null => some none
  | some j => (read j).map some

/-- A field that may be absent. -/
def withDefault {γ : Type} (f : Fields) (i : Nat) (x : γ) (read : Json → Option γ) : Option γ :=
  match f.at? i with
  | none => some x
  | some j => read j

end Fields

/-- Writes a record, leaving out the fields without a value. -/
def record (members : List (String × Option Json)) : Json :=
  .object (members.filterMap fun m => m.2.map (m.1, ·))

/-- A collection that is left out when empty. -/
def unlessEmpty (isEmpty : Bool) (j : Json) : Option Json := if isEmpty then none else some j

end PoolControl.Json
