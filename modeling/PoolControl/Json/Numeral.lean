import PoolControl.Json.Basic

/-! Numbers in JSON text.

A numeral without fraction and exponent is an integer if a signed or unsigned 64-bit word
holds it; `-0` is the negative zero. Every other numeral is a double, computed from the
digits that fit an unsigned 64-bit word: further integer digits count as tens, further
fraction digits not at all, and the decimal exponent is applied last. A numeral past the
largest double has no value. -/
namespace PoolControl.Json

/-- The parts of a numeral: sign, integer digits, fraction digits if any, and exponent
with its sign if any. -/
structure Numeral where
  negative : Bool
  whole : List Char
  fraction : Option (List Char)
  power : Option (Bool × List Char)

namespace Numeral

def digitValue (c : Char) : Nat := c.toNat - '0'.toNat

/-- Digits so far as a word, and the decimal exponent that goes with them. -/
structure Parts where
  word : Nat
  exponent : Int

/-- The first number past a 64-bit word. -/
def wordEnd : Nat := 18446744073709551616

/-- Takes integer digits: those past the word only raise the exponent. -/
def takeWhole (p : Parts) : List Char → Parts
  | [] => p
  | c :: rest =>
    let w := p.word * 10 + digitValue c
    if w < wordEnd then takeWhole { p with word := w } rest
    else { p with exponent := p.exponent + 1 + rest.length }

/-- Takes fraction digits: those past the word are dropped. -/
def takeFraction (p : Parts) : List Char → Parts
  | [] => p
  | c :: rest =>
    let w := p.word * 10 + digitValue c
    if w < wordEnd then takeFraction ⟨w, p.exponent - 1⟩ rest else p

/-- The written exponent, unless it is too long for a 31-bit number. -/
def writtenPower (ds : List Char) : Option Nat :=
  let n := ds.foldl (fun v c => v * 10 + digitValue c) 0
  if n < 2147483648 then some n else none

/-- The exponent kept within 32 bits. -/
def clamp (e : Int) : Int := max (-2147483648) (min 2147483647 e)

/-- The double that parts make. -/
def Parts.double (p : Parts) (negative : Bool) : Option Double :=
  ((Double.round false p.word 1).bind fun x => Double.scaleTen 4 x p.exponent).map
    fun x => { x with negative }

def ofDouble : Option Double → Json
  | some x => .float x
  | none => .unreadable

/-- The value of a numeral. -/
def value (n : Numeral) : Json :=
  let whole := takeWhole ⟨0, 0⟩ n.whole
  match n.fraction, n.power with
  | none, none =>
    if whole.exponent ≠ 0 then ofDouble (whole.double n.negative)
    else if n.negative then
      if whole.word = 0 ∨ wordEnd / 2 < whole.word then ofDouble (whole.double true)
      else .int (-(whole.word : Int))
    else .int whole.word
  | fraction, power =>
    let p := takeFraction whole (fraction.getD [])
    match power with
    | none => ofDouble (p.double n.negative)
    | some (down, ds) =>
      match writtenPower ds with
      | some e =>
        let e := if down then p.exponent - e else p.exponent + e
        ofDouble ({ p with exponent := clamp e }.double n.negative)
      | none => if p.word ≠ 0 ∧ !down then .unreadable else .float ⟨n.negative, 0, 0⟩

end Numeral

/-- Splits off the leading digits. -/
def digitsOf (cs : List Char) : List Char × List Char := cs.span Char.isDigit

/-- Reads the exponent part behind its letter. -/
def readPower (cs : List Char) : Option ((Bool × List Char) × List Char) :=
  let (down, cs) := match cs with
    | '+' :: rest => (false, rest)
    | '-' :: rest => (true, rest)
    | _ => (false, cs)
  match digitsOf cs with
  | ([], _) => none
  | (ds, rest) => some ((down, ds), rest)

/-- Reads what may follow the integer digits. -/
def readTail (negative : Bool) (whole cs : List Char) : Option (Numeral × List Char) :=
  let withPower (fraction : Option (List Char)) (cs : List Char) :=
    match cs with
    | c :: rest =>
      if c = 'e' ∨ c = 'E' then
        (readPower rest).map fun p => (⟨negative, whole, fraction, some p.1⟩, p.2)
      else some (⟨negative, whole, fraction, none⟩, cs)
    | [] => some (⟨negative, whole, fraction, none⟩, cs)
  match cs with
  | '.' :: rest =>
    match digitsOf rest with
    | ([], _) => none
    | (ds, rest) => withPower (some ds) rest
  | _ => withPower none cs

/-- Reads a numeral. A leading zero stands alone. -/
def readNumeral (cs : List Char) : Option (Numeral × List Char) :=
  let (negative, cs) := match cs with
    | '-' :: rest => (true, rest)
    | _ => (false, cs)
  match digitsOf cs with
  | ([], _) => none
  | ('0' :: _ :: _, _) => none
  | (whole, rest) => readTail negative whole rest

end PoolControl.Json
