/-! Double-precision numbers.

A double is a sign, a mantissa and a binary exponent in canonical form: a mantissa below
`2 ^ 53` that is at least `2 ^ 52` unless the exponent is the least one. `round` takes a
quotient to the nearest double, a tie to the even mantissa, and every operation is the
exact one followed by `round`. The written form uses the fewest decimal digits whose
value rounds back to the double. -/
namespace PoolControl

structure Double where
  negative : Bool
  mantissa : Nat
  exponent : Int
deriving DecidableEq

namespace Double

def zero : Double := ⟨false, 0, 0⟩

instance : Inhabited Double := ⟨zero⟩

/-! ### Rounding -/

/-- `num / den` divided by `2 ^ e`, to the nearest integer, a tie to the even one. -/
def scaled (num den : Nat) (e : Int) : Nat :=
  let n := num <<< (-e).toNat
  let d := den <<< e.toNat
  let q := n / d
  let r := n % d
  if d < 2 * r ∨ (2 * r = d ∧ q % 2 = 1) then q + 1 else q

/-- The exponent `k` with `2 ^ k ≤ num / den < 2 ^ (k + 1)`. -/
def magnitude (num den : Nat) : Int :=
  let k : Int := (num.log2 : Int) - (den.log2 : Int)
  if num <<< (-k).toNat < den <<< k.toNat then k - 1 else k

/-- The double nearest to `num / den`, unless that is past the largest one. -/
def round (negative : Bool) (num den : Nat) : Option Double :=
  if num = 0 then some ⟨negative, 0, 0⟩
  else
    let e := max (magnitude num den - 52) (-1074)
    let q := scaled num den e
    let (q, e) := if q = 9007199254740992 then (4503599627370496, e + 1) else (q, e)
    if q = 0 then some ⟨negative, 0, 0⟩
    else if 971 < e then none
    else some ⟨negative, q, e⟩

/-- The numerator of the absolute value. -/
def num (x : Double) : Nat := x.mantissa <<< x.exponent.toNat

/-- The denominator of the absolute value. -/
def den (x : Double) : Nat := 1 <<< (-x.exponent).toNat

def mul (x y : Double) : Option Double :=
  round (x.negative != y.negative) (x.num * y.num) (x.den * y.den)

/-- The quotient by a number that is not zero. -/
def div (x y : Double) : Option Double :=
  round (x.negative != y.negative) (x.num * y.den) (x.den * y.num)

/-- Zero without its sign, and any other number as it is. -/
def unsignedZero (x : Double) : Double := if x.mantissa = 0 then zero else x

/-! ### Decimal scaling -/

/-- The double nearest to `10 ^ n`, for `n` up to 308. -/
def powerOfTen (n : Nat) : Double := (round false (Nat.pow 10 n) 1).getD zero

/-- A double times `10 ^ e` in steps of at most 308 places, each rounded on its own.
There is no answer once a step leaves the range. The first argument bounds the steps: two
of them take every double below `10 ^ 300` to zero. -/
def scaleTen : Nat → Double → Int → Option Double
  | 0, x, _ => some x
  | fuel + 1, x, e =>
    if -308 ≤ e ∧ e < 0 then x.div (powerOfTen (-e).toNat)
    else if 0 ≤ e ∧ e ≤ 308 then x.mul (powerOfTen e.toNat)
    else if x.mantissa = 0 then some x
    else if 0 ≤ e then none
    else (x.div (powerOfTen 308)).bind fun y => scaleTen fuel y (e + 308)

/-! ### Written form -/

/-- Whether `digits * 10 ^ e` rounds to the absolute value of `x`. -/
def readsBack (x : Double) (digits : Nat) (e : Int) : Bool :=
  match round x.negative (digits * Nat.pow 10 e.toNat) (Nat.pow 10 (-e).toNat) with
  | some y => y == x
  | none => false

/-- The nearer of two neighbouring multiples of `10 ^ e` that reads back, a tie going to
the even one. -/
def onGrid (x : Double) (e : Int) : Option Nat :=
  let n := x.num * Nat.pow 10 (-e).toNat
  let d := x.den * Nat.pow 10 e.toNat
  let low := n / d
  let below := readsBack x low e
  let above := readsBack x (low + 1) e
  let r := 2 * (n % d)
  if below && above then
    some (if r < d ∨ (r = d ∧ low % 2 = 0) then low else low + 1)
  else if below then some low
  else if above then some (low + 1)
  else none

/-- Tries grids from `10 ^ e` on, finer by one place each time. -/
def shortestFrom (x : Double) (e : Int) : Nat → Nat × Int
  | 0 => (0, 0)
  | fuel + 1 =>
    match onGrid x e with
    | some digits => (digits, e)
    | none => shortestFrom x (e - 1) fuel

/-- The decimal place of the leading digit of `num / den`, from an estimate off by at
most one. -/
def leadingPlace (num den : Nat) : Int :=
  let guess : Int := ((num.log2 : Int) - (den.log2 : Int)) * 30103 / 100000
  let below (p : Int) : Bool := num * Nat.pow 10 (-p).toNat < den * Nat.pow 10 p.toNat
  if below guess then guess - 1 else if below (guess + 1) then guess else guess + 1

/-- Digits and exponent of the shortest decimal that reads back. -/
def shortest (x : Double) : Nat × Int :=
  shortestFrom x (leadingPlace x.num x.den) 18

/-- Digits without trailing zeros, with the exponent that makes up for them. -/
def trimZeros : Nat → Nat → Int → Nat × Int
  | 0, digits, e => (digits, e)
  | fuel + 1, digits, e =>
    if digits ≠ 0 ∧ digits % 10 = 0 then trimZeros fuel (digits / 10) (e + 1) else (digits, e)

/-- Positional between `10 ^ -5` and `10 ^ 16`, with an exponent otherwise; always
recognisable as a fraction. -/
def text (x : Double) : String :=
  let sign := if x.negative then "-" else ""
  if x.mantissa = 0 then sign ++ "0.0"
  else
    let (digits, e) := let s := x.shortest; trimZeros 20 s.1 s.2
    let ds := (toString digits).toList
    let n : Int := ds.length
    let point := n + e
    let body : List Char :=
      if 0 ≤ e ∧ point ≤ 16 then ds ++ List.replicate e.toNat '0' ++ ['.', '0']
      else if 0 < point ∧ point ≤ 16 then ds.take point.toNat ++ '.' :: ds.drop point.toNat
      else if -5 < point ∧ point ≤ 0 then
        '0' :: '.' :: List.replicate (-point).toNat '0' ++ ds
      else
        let power := (toString (point - 1)).toList
        if ds.length = 1 then ds ++ 'e' :: power
        else ds.take 1 ++ '.' :: ds.drop 1 ++ 'e' :: power
    sign ++ String.ofList body

end Double

end PoolControl
