/-! 128-bit identifiers in Crockford's base 32.

An identifier is written with 26 digits, most significant first. The digits are the
decimal digits and the letters without I, L, O and U, read in either case and written in
upper case. 26 digits hold 130 bits: reading keeps the value modulo `2 ^ 128`, so the
first digit counts modulo 8. The upper 48 bits are a time in milliseconds. -/
namespace PoolControl

/-- A 128-bit identifier. -/
abbrev Ulid := BitVec 128

namespace Ulid

/-- The digits by increasing value. -/
def alphabet : List Char := "0123456789ABCDEFGHJKMNPQRSTVWXYZ".toList

/-- The value of a digit in either case. -/
def digit? (c : Char) : Option Nat := alphabet.findIdx? (· == c.toUpper)

/-- The digit of a value below 32. -/
def digitChar (d : Nat) : Char := alphabet.getD d '0'

/-- The number that digits write, most significant first. -/
def ofDigits (ds : List Nat) : Nat := ds.foldl (fun v d => v * 32 + d) 0

/-- The 26 digits of an identifier, most significant first. -/
def digits (u : Ulid) : List Nat :=
  (List.range 26).map fun i => u.toNat >>> (5 * (25 - i)) % 32

/-- The canonical text. -/
def text (u : Ulid) : List Char := u.digits.map digitChar

/-- The time part, in milliseconds. -/
def millis (u : Ulid) : Nat := u.toNat >>> 80

/-- Why a text is not an identifier. -/
inductive ReadError
  /-- Not 26 bytes long. -/
  | length
  /-- A character that is no digit. -/
  | character
deriving DecidableEq

def ReadError.message : ReadError → String
  | .length => "invalid length"
  | .character => "invalid character"

/-- The length of a text in UTF-8. -/
def byteLength (s : List Char) : Nat := s.foldl (fun n c => n + c.utf8Size) 0

/-- Reads 26 digits. The length is checked first, in bytes. -/
def read (s : List Char) : Except ReadError Ulid :=
  if byteLength s ≠ 26 then .error .length
  else match s.mapM digit? with
    | some ds => .ok (BitVec.ofNat 128 (ofDigits ds))
    | none => .error .character

end Ulid

end PoolControl
