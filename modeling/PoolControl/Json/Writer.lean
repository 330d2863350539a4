import PoolControl.Json.Basic

/-! Writing JSON text, without blanks and with the members in their order.

Quotes, backslashes and control characters are escaped, everything else stands for
itself. -/
namespace PoolControl.Json

def hexDigit (n : Nat) : Char := "0123456789abcdef".toList.getD n '0'

/-- A character as it stands in a string. -/
def escaped (c : Char) : List Char :=
  match c with
  | '"' => ['\\', '"']
  | '\\' => ['\\', '\\']
  | '\x08' => ['\\', 'b']
  | '\x0c' => ['\\', 'f']
  | '\n' => ['\\', 'n']
  | '\r' => ['\\', 'r']
  | '\t' => ['\\', 't']
  | c =>
    if c.toNat < 0x20 then
      ['\\', 'u', '0', '0', hexDigit (c.toNat / 16), hexDigit (c.toNat % 16)]
    else [c]

def quoted (s : String) : String :=
  "\"" ++ String.ofList (s.toList.flatMap escaped) ++ "\""

mutual

/-- The text of a value. -/
def text : Json → String
  | .null => "null"
  | .bool true => "true"
  | .bool false => "false"
  | .int n => toString n
  | .float x => x.text
  | .string s => quoted s
  | .array items => "[" ++ textItems items ++ "]"
  | .object members => "\x7b" ++ textMembers members ++ "\x7d"
  | .unreadable => "null"

def textItems : List Json → String
  | [] => ""
  | [j] => text j
  | j :: rest => text j ++ "," ++ textItems rest

def textMembers : List (String × Json) → String
  | [] => ""
  | [(n, j)] => quoted n ++ ":" ++ text j
  | (n, j) :: rest => quoted n ++ ":" ++ text j ++ "," ++ textMembers rest

end

end PoolControl.Json
