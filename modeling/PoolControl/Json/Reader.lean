import PoolControl.Json.Numeral

/-! Reading JSON text.

The text is strict: one value with nothing but blanks around it, no control characters in
strings, no trailing commas. Three kinds of parts are well formed but have no value and
are read as `unreadable`: a string with an unpaired surrogate escape, a number past the
largest double, and a value inside more than `depthLimit` others. -/
namespace PoolControl.Json

/-- How many arrays and objects may stand inside one another. -/
def depthLimit : Nat := 127

def isBlank (c : Char) : Bool := c = ' ' || c = '\n' || c = '\t' || c = '\r'

def skipBlanks (cs : List Char) : List Char := cs.dropWhile isBlank

/-! ### Strings -/

def hexValue? (c : Char) : Option Nat :=
  if c.isDigit then some (c.toNat - '0'.toNat)
  else if 'a' ≤ c ∧ c ≤ 'f' then some (c.toNat - 'a'.toNat + 10)
  else if 'A' ≤ c ∧ c ≤ 'F' then some (c.toNat - 'A'.toNat + 10)
  else none

/-- The number written by four hexadecimal digits. -/
def hex4? (a b c d : Char) : Option Nat :=
  match hexValue? a, hexValue? b, hexValue? c, hexValue? d with
  | some a, some b, some c, some d => some (((a * 16 + b) * 16 + c) * 16 + d)
  | _, _, _, _ => none

def isLeading (n : Nat) : Bool := 0xD800 ≤ n && n < 0xDC00

def isTrailing (n : Nat) : Bool := 0xDC00 ≤ n && n < 0xE000

/-- The character behind a backslash. -/
def escape? : Char → Option Char
  | '"' => some '"'
  | '\\' => some '\\'
  | '/' => some '/'
  | 'b' => some '\x08'
  | 'f' => some '\x0c'
  | 'n' => some '\n'
  | 'r' => some '\r'
  | 't' => some '\t'
  | _ => none

/-- Reads a string behind its opening quote into the reversed `sofar`. The string is `none`
once it held an unpaired surrogate. -/
def readString (sofar : Option (List Char)) :
    List Char → Option (Option (List Char) × List Char)
  | '"' :: rest => some (sofar.map List.reverse, rest)
  | '\\' :: 'u' :: a :: b :: c :: d :: '\\' :: 'u' :: e :: f :: g :: h :: rest =>
    match hex4? a b c d, hex4? e f g h with
    | some m, some n =>
      if isLeading m && isTrailing n then
        let ch := Char.ofNat (0x10000 + (m - 0xD800) * 0x400 + (n - 0xDC00))
        readString (sofar.map (ch :: ·)) rest
      else if isLeading m || isTrailing m then
        readString none ('\\' :: 'u' :: e :: f :: g :: h :: rest)
      else
        readString (sofar.map (Char.ofNat m :: ·)) ('\\' :: 'u' :: e :: f :: g :: h :: rest)
    | _, _ => none
  | '\\' :: 'u' :: a :: b :: c :: d :: rest =>
    match hex4? a b c d with
    | some m =>
      if isLeading m || isTrailing m then readString none rest
      else readString (sofar.map (Char.ofNat m :: ·)) rest
    | none => none
  | '\\' :: c :: rest =>
    match escape? c with
    | some ch => readString (sofar.map (ch :: ·)) rest
    | none => none
  | c :: rest => if c.toNat < 0x20 then none else readString (sofar.map (c :: ·)) rest
  | [] => none
termination_by cs => cs.length

/-! ### Values -/

/-- Drops a given word from the front. -/
def dropWord (word cs : List Char) : Option (List Char) :=
  if word.isPrefixOf cs then some (cs.drop word.length) else none

mutual

/-- Reads a value with room for `depth` more levels. The first argument bounds the number
of parts. -/
def readValue : Nat → Nat → List Char → Option (Json × List Char)
  | 0, _, _ => none
  | fuel + 1, depth, cs =>
    match skipBlanks cs with
    | 'n' :: rest => (dropWord ['u', 'l', 'l'] rest).map fun r => (.null, r)
    | 't' :: rest => (dropWord ['r', 'u', 'e'] rest).map fun r => (.bool true, r)
    | 'f' :: rest => (dropWord ['a', 'l', 's', 'e'] rest).map fun r => (.bool false, r)
    | '"' :: rest =>
      (readString (some []) rest).map fun p =>
        (match p.1 with
          | some s => .string (String.ofList s)
          | none => .unreadable, p.2)
    | '[' :: rest =>
      let read := match skipBlanks rest with
        | ']' :: rest => some ([], rest)
        | rest => readItems fuel (depth - 1) [] rest
      read.map fun p => (if depth = 0 then .unreadable else .array p.1, p.2)
    | '\x7b' :: rest =>
      let read := match skipBlanks rest with
        | '\x7d' :: rest => some (some [], rest)
        | rest => readMembers fuel (depth - 1) (some []) rest
      read.map fun p =>
        (match depth, p.1 with
          | _ + 1, some ms => .object ms
          | _, _ => .unreadable, p.2)
    | rest => (readNumeral rest).map fun p => (p.1.value, p.2)

/-- Reads the items of an array up to its end into the reversed `sofar`. -/
def readItems : Nat → Nat → List Json → List Char → Option (List Json × List Char)
  | 0, _, _, _ => none
  | fuel + 1, depth, sofar, cs =>
    match readValue fuel depth cs with
    | none => none
    | some (j, rest) =>
      match skipBlanks rest with
      | ',' :: rest => readItems fuel depth (j :: sofar) rest
      | ']' :: rest => some ((j :: sofar).reverse, rest)
      | _ => none

/-- Reads the members of an object up to its end into the reversed `sofar`, which is `none`
once a name had no value. -/
def readMembers : Nat → Nat → Option (List (String × Json)) → List Char →
    Option (Option (List (String × Json)) × List Char)
  | 0, _, _, _ => none
  | fuel + 1, depth, sofar, cs =>
    match skipBlanks cs with
    | '"' :: rest =>
      match readString (some []) rest with
      | none => none
      | some (name, rest) =>
        match skipBlanks rest with
        | ':' :: rest =>
          match readValue fuel depth rest with
          | none => none
          | some (j, rest) =>
            let sofar := match sofar, name with
              | some ms, some n => some ((String.ofList n, j) :: ms)
              | _, _ => none
            match skipBlanks rest with
            | ',' :: rest => readMembers fuel depth sofar rest
            | '\x7d' :: rest => some (sofar.map List.reverse, rest)
            | _ => none
        | _ => none
    | _ => none

end

/-- Reads a text that is one value. -/
def read (text : String) : Option Json :=
  let cs := text.toList
  match readValue (2 * cs.length + 2) depthLimit cs with
  | some (j, rest) => if (skipBlanks rest).isEmpty then some j else none
  | none => none

end PoolControl.Json
