/-! Natural numbers below a limit, in decimal.

A number is an optional plus sign and at least one ASCII digit. Its characters are read
in order and the first that does not fit decides the error: a character that is no digit,
or a digit that takes the value past the limit. -/
namespace PoolControl.Text

/-- Why a text is not a number in range. -/
inductive NaturalError
  | empty
  | digit
  | range
deriving DecidableEq

def NaturalError.message : NaturalError → String
  | .empty => "cannot parse integer from empty string"
  | .digit => "invalid digit found in string"
  | .range => "number too large to fit in target type"

/-- Reads further digits of a number below `limit` whose digits so far make `v`. -/
def naturalFrom (limit v : Nat) : List Char → Except NaturalError Nat
  | [] => .ok v
  | c :: rest =>
    if c.isDigit then
      let v := v * 10 + (c.toNat - '0'.toNat)
      if v < limit then naturalFrom limit v rest else .error .range
    else .error .digit

/-- Reads a number below `limit`. -/
def natural (limit : Nat) (s : String) : Except NaturalError Nat :=
  match s.toList with
  | [] => .error .empty
  | ['+'] => .error .digit
  | '+' :: rest => naturalFrom limit 0 rest
  | cs => naturalFrom limit 0 cs

end PoolControl.Text
