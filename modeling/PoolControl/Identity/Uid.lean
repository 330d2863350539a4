import PoolControl.Identity.Ulid
import PoolControl.Text.Split

/-! Tagged identifiers.

A uid tells one incarnation of an object from the next one under the same key, and an
attempt id one reconcile attempt from another. Both are a 128-bit identifier behind a
tag, written `tag_` and 26 digits, and neither can stand for the other: the tag is part
of the type and is checked on reading. The written form is also the JSON form. Uids are
ordered by value, which is the order of their texts. -/
namespace PoolControl

/-- What a uid identifies. -/
inductive UidTag
  | object
  | attempt
deriving DecidableEq

def UidTag.text : UidTag → String
  | .object => "uid"
  | .attempt => "att"

structure Uid (t : UidTag) where
  ulid : Ulid
deriving DecidableEq, Inhabited

/-- The uid of an object. -/
abbrev ObjectUid := Uid .object

/-- The id of a reconcile attempt. -/
abbrev AttemptId := Uid .attempt

namespace Uid

variable {t : UidTag}

instance : Ord (Uid t) := ⟨compareOn fun u => u.ulid.toNat⟩

instance : Std.TransOrd (Uid t) :=
  inferInstanceAs (Std.TransCmp (compareOn fun u : Uid t => u.ulid.toNat))

instance : Std.LawfulEqOrd (Uid t) where
  eq_of_compare {a b} h := by
    have h : compare a.ulid.toNat b.ulid.toNat = .eq := h
    rw [Std.compare_eq_iff_eq] at h
    cases a
    cases b
    exact congrArg Uid.mk (BitVec.eq_of_toNat_eq h)

/-- The canonical text. -/
def text (u : Uid t) : String := t.text ++ "_" ++ String.ofList u.ulid.text

/-- Why a text is not a uid. -/
inductive ReadError
  | empty
  | missingSeparator
  | wrongTag (expected actual : String)
  | ulid (cause : Ulid.ReadError)
deriving DecidableEq

def ReadError.message : ReadError → String
  | .empty => "ID cannot be empty"
  | .missingSeparator => "ID missing underscore separator"
  | .wrongTag e a => "invalid ID prefix: expected '" ++ e ++ "', got '" ++ a ++ "'"
  | .ulid c => "invalid ULID: " ++ c.message

/-- Reads a tag, an underscore and 26 digits. -/
def read (t : UidTag) (s : String) : Except ReadError (Uid t) :=
  if s.isEmpty then .error .empty
  else match Text.splitFirst '_' s.toList with
    | none => .error .missingSeparator
    | some (tag, digits) =>
      if String.ofList tag ≠ t.text then .error (.wrongTag t.text (String.ofList tag))
      else match Ulid.read digits with
        | .ok u => .ok ⟨u⟩
        | .error c => .error (.ulid c)

end Uid

end PoolControl
