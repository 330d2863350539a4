import PoolControl.Json.Basic

/-! Paths into a JSON value.

A pointer is empty, for the value itself, or a sequence of steps each behind a slash, in
which `~1` stands for a slash and `~0` for a tilde. A step selects the member of its name
from an object, or the item at its index from an array; an index is written without sign
and without leading zeros. A pointer that leads nowhere selects nothing. -/
namespace PoolControl.Json.Pointer

/-- The steps of a text after its first slash, still escaped. -/
def split : List Char → List (List Char)
  | [] => [[]]
  | '/' :: rest => [] :: split rest
  | c :: rest =>
    match split rest with
    | [] => [[c]]
    | s :: steps => (c :: s) :: steps

/-- Puts slashes back. -/
def unescapeSlash : List Char → List Char
  | '~' :: '1' :: rest => '/' :: unescapeSlash rest
  | c :: rest => c :: unescapeSlash rest
  | [] => []

/-- Puts tildes back. -/
def unescapeTilde : List Char → List Char
  | '~' :: '0' :: rest => '~' :: unescapeTilde rest
  | c :: rest => c :: unescapeTilde rest
  | [] => []

/-- The name a step stands for. -/
def unescape (s : List Char) : List Char := unescapeTilde (unescapeSlash s)

/-- The number that decimal digits write. -/
def decimal (ds : List Char) : Nat :=
  ds.foldl (fun v c => v * 10 + (c.toNat - '0'.toNat)) 0

/-- The index a step writes, below the greatest 64-bit number. -/
def index? : List Char → Option Nat
  | ['0'] => some 0
  | '0' :: _ => none
  | [] => none
  | ds =>
    if ds.all Char.isDigit ∧ decimal ds < 18446744073709551616 then some (decimal ds) else none

/-- What a step selects. -/
def step (name : List Char) : Json → Option Json
  | .object ms => member? (String.ofList name) ms
  | .array items => (index? name).bind fun i => items[i]?
  | _ => none

/-- What a sequence of steps selects. -/
def follow : List (List Char) → Json → Option Json
  | [], j => some j
  | s :: steps, j => (step (unescape s) j).bind (follow steps)

end PoolControl.Json.Pointer

namespace PoolControl.Json

/-- The part of a value that a pointer selects. -/
def pointer (j : Json) (path : String) : Option Json :=
  match path.toList with
  | [] => some j
  | '/' :: rest => Pointer.follow (Pointer.split rest) j
  | _ => none

end PoolControl.Json
