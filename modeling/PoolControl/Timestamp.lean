import PoolControl.Text.Blank

/-! Points in time.

A timestamp is a date and time of day in UTC on the proleptic Gregorian calendar, with
nanoseconds; second 60 is a leap second. Its text has the form
`2024-01-02T03:04:05.678Z`, with 0, 3, 6 or 9 digits after the point, the fewest that
lose nothing, and with a sign on years that do not have four digits.

Reading is more generous: any number of fraction digits, of which nine count, numbers
without leading zeros, a blank instead of the `T`, blanks between the parts, `Z`, `UTC`
or a numeric offset. The offset is mandatory and is converted away, which moves the time
by less than a day. -/
namespace PoolControl

structure Timestamp where
  year : Int
  month : Nat
  day : Nat
  hour : Nat
  minute : Nat
  second : Nat
  nanos : Nat
deriving DecidableEq, Inhabited

namespace Timestamp

/-! ### The calendar -/

def isLeapYear (y : Int) : Bool := y % 4 == 0 && (y % 100 != 0 || y % 400 == 0)

def daysInMonth (y : Int) (m : Nat) : Nat :=
  if m = 2 then if isLeapYear y then 29 else 28
  else if m = 4 ∨ m = 6 ∨ m = 9 ∨ m = 11 then 30
  else 31

/-- The first and the last year of the calendar. -/
def firstYear : Int := -262143

def lastYear : Int := 262142

/-- A date and time that exists. -/
structure Valid (t : Timestamp) : Prop where
  year_ge : firstYear ≤ t.year
  year_le : t.year ≤ lastYear
  month_pos : 1 ≤ t.month
  month_le : t.month ≤ 12
  day_pos : 1 ≤ t.day
  day_le : t.day ≤ daysInMonth t.year t.month
  hour_lt : t.hour < 24
  minute_lt : t.minute < 60
  second_le : t.second ≤ 60
  nanos_lt : t.nanos < 1000000000

theorem valid_iff (t : Timestamp) : t.Valid ↔
    (firstYear ≤ t.year ∧ t.year ≤ lastYear) ∧ (1 ≤ t.month ∧ t.month ≤ 12) ∧
      (1 ≤ t.day ∧ t.day ≤ daysInMonth t.year t.month) ∧ t.hour < 24 ∧ t.minute < 60 ∧
      t.second ≤ 60 ∧ t.nanos < 1000000000 :=
  ⟨fun ⟨a, b, c, d, e, f, g, h, i, j⟩ => ⟨⟨a, b⟩, ⟨c, d⟩, ⟨e, f⟩, g, h, i, j⟩,
    fun ⟨⟨a, b⟩, ⟨c, d⟩, ⟨e, f⟩, g, h, i, j⟩ => ⟨a, b, c, d, e, f, g, h, i, j⟩⟩

instance (t : Timestamp) : Decidable t.Valid := decidable_of_iff' _ (valid_iff t)

/-- The same time a day later. -/
def nextDay (t : Timestamp) : Timestamp :=
  if t.day < daysInMonth t.year t.month then { t with day := t.day + 1 }
  else if t.month < 12 then { t with month := t.month + 1, day := 1 }
  else { t with year := t.year + 1, month := 1, day := 1 }

/-- The same time a day earlier. -/
def previousDay (t : Timestamp) : Timestamp :=
  if 1 < t.day then { t with day := t.day - 1 }
  else if 1 < t.month then
    { t with month := t.month - 1, day := daysInMonth t.year (t.month - 1) }
  else { t with year := t.year - 1, month := 12, day := 31 }

/-- The UTC time of a local time `offset` minutes ahead of UTC. -/
def toUtc (t : Timestamp) (offset : Int) : Timestamp :=
  let m : Int := t.hour * 60 + t.minute - offset
  let at_ (m : Int) : Timestamp :=
    { t with hour := (m / 60).toNat, minute := (m % 60).toNat }
  if m < 0 then previousDay (at_ (m + 1440))
  else if 1440 ≤ m then nextDay (at_ (m - 1440))
  else at_ m

/-! ### Writing -/

/-- A number with leading zeros up to a width. -/
def padded (width n : Nat) : String :=
  let ds := (Nat.toDigits 10 n)
  String.ofList (List.replicate (width - ds.length) '0' ++ ds)

def yearText (y : Int) : String :=
  if 0 ≤ y ∧ y ≤ 9999 then padded 4 y.toNat
  else (if y < 0 then "-" else "+") ++ padded 4 y.natAbs

def fractionText (nanos : Nat) : String :=
  if nanos = 0 then ""
  else if nanos % 1000000 = 0 then "." ++ padded 3 (nanos / 1000000)
  else if nanos % 1000 = 0 then "." ++ padded 6 (nanos / 1000)
  else "." ++ padded 9 nanos

def text (t : Timestamp) : String :=
  yearText t.year ++ "-" ++ padded 2 t.month ++ "-" ++ padded 2 t.day ++ "T" ++
    padded 2 t.hour ++ ":" ++ padded 2 t.minute ++ ":" ++ padded 2 t.second ++
    fractionText t.nanos ++ "Z"

/-! ### Reading -/

def digitsValue (ds : List Char) : Nat :=
  ds.foldl (fun v c => v * 10 + (c.toNat - '0'.toNat)) 0

/-- Reads between one and `most` digits behind blanks. -/
def readNumber (most : Nat) (cs : List Char) : Option (Nat × List Char) :=
  let cs := Text.trimLeft cs
  let ds := (cs.take most).takeWhile Char.isDigit
  if ds.isEmpty then none else some (digitsValue ds, cs.drop ds.length)

/-- Reads a year: four digits at most, or a sign and any number of digits. -/
def readYear (cs : List Char) : Option (Int × List Char) :=
  match Text.trimLeft cs with
  | '-' :: rest => (readUnspaced rest).map fun p => (-(p.1 : Int), p.2)
  | '+' :: rest => (readUnspaced rest).map fun p => ((p.1 : Int), p.2)
  | rest => (readNumber 4 rest).map fun p => ((p.1 : Int), p.2)
where
  readUnspaced (cs : List Char) : Option (Nat × List Char) :=
    let ds := cs.takeWhile Char.isDigit
    if ds.isEmpty then none else some (digitsValue ds, cs.drop ds.length)

/-- Drops a character behind blanks. -/
def dropMark (mark : Char) (cs : List Char) : Option (List Char) :=
  match Text.trimLeft cs with
  | c :: rest => if c = mark then some rest else none
  | [] => none

/-- Reads an optional fraction of a second as nanoseconds. -/
def readFraction : List Char → Option (Nat × List Char)
  | '.' :: rest =>
    let ds := rest.takeWhile Char.isDigit
    if ds.isEmpty then none
    else
      let kept := ds.take 9
      some (digitsValue kept * Nat.pow 10 (9 - kept.length), rest.drop ds.length)
  | cs => some (0, cs)

/-- The number of two digits. -/
def twoDigits? (a b : Char) : Option Nat :=
  if a.isDigit ∧ b.isDigit then some (digitsValue [a, b]) else none

/-- Reads hours, colons or blanks, and minutes. -/
def readClockOffset : List Char → Option (Nat × List Char)
  | a :: b :: rest =>
    match twoDigits? a b, rest.dropWhile (fun c => c = ':' || Text.isBlank c) with
    | some h, c :: d :: rest =>
      match twoDigits? c d with
      | some m => if m < 60 ∧ h < 24 then some (h * 60 + m, rest) else none
      | none => none
    | _, _ => none
  | _ => none

/-- Reads an offset in minutes ahead of UTC. -/
def readOffset (cs : List Char) : Option (Int × List Char) :=
  match Text.trimLeft cs with
  | 'Z' :: rest => some (0, rest)
  | 'z' :: rest => some (0, rest)
  | '+' :: rest => (readClockOffset rest).map fun p => ((p.1 : Int), p.2)
  | '-' :: rest => (readClockOffset rest).map fun p => (-(p.1 : Int), p.2)
  | '\u2212' :: rest => (readClockOffset rest).map fun p => (-(p.1 : Int), p.2)
  | u :: t :: c :: rest =>
    if [u, t, c].map Char.toUpper = ['U', 'T', 'C'] then some (0, rest) else none
  | _ => none

/-- Reads a date. -/
def readDate (cs : List Char) : Option ((Int × Nat × Nat) × List Char) := do
  let (year, cs) ← readYear cs
  let cs ← dropMark '-' cs
  let (month, cs) ← readNumber 2 cs
  let cs ← dropMark '-' cs
  let (day, cs) ← readNumber 2 cs
  return ((year, month, day), cs)

/-- Reads a time of day. -/
def readTime (cs : List Char) : Option ((Nat × Nat × Nat × Nat) × List Char) := do
  let (hour, cs) ← readNumber 2 cs
  let cs ← dropMark ':' cs
  let (minute, cs) ← readNumber 2 cs
  let cs ← dropMark ':' cs
  let (second, cs) ← readNumber 2 cs
  let (nanos, cs) ← readFraction cs
  return ((hour, minute, second, nanos), cs)

/-- Drops what separates date and time. -/
def dropSeparator : List Char → Option (List Char)
  | c :: rest => if c = 'T' ∨ c = 't' ∨ c = ' ' then some rest else none
  | [] => none

/-- Reads a date, a time of day and an offset. Both the local and the UTC time must exist. -/
def read (s : String) : Option Timestamp := do
  let ((year, month, day), cs) ← readDate s.toList
  let cs ← dropSeparator cs
  let ((hour, minute, second, nanos), cs) ← readTime cs
  let (offset, cs) ← readOffset cs
  let here : Timestamp := ⟨year, month, day, hour, minute, second, nanos⟩
  let utc := here.toUtc offset
  if (Text.trimLeft cs).isEmpty ∧ here.Valid ∧ utc.Valid then return utc else none

end Timestamp

end PoolControl
