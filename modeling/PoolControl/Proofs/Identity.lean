import PoolControl.Identity.Uid
import Mathlib.Algebra.Group.Nat.Defs

/-! Identifiers are read from their texts.

A text has 26 digits of 5 bits, which is more than the 128 bits of an identifier, so nothing is
lost in writing, and reading is the inverse (`Ulid.read_text`). The tag holds no underscore, so
that a uid is split where it was put together (`Uid.read_text`). -/
namespace PoolControl

namespace Ulid

theorem digit?_digitChar : ∀ d < 32, digit? (digitChar d) = some d := by decide

theorem utf8Size_digitChar : ∀ d < 32, (digitChar d).utf8Size = 1 := by decide

/-- The last `n` digits of a number. -/
def lastDigits (n x : Nat) : List Nat := (List.range n).map fun i => x >>> (5 * (n - 1 - i)) % 32

theorem digits_eq (u : Ulid) : u.digits = lastDigits 26 u.toNat := rfl

theorem lastDigits_succ (n x : Nat) : lastDigits (n + 1) x = lastDigits n (x / 32) ++ [x % 32] := by
  have shift (i : Nat) (hi : i < n) :
      x >>> (5 * (n + 1 - 1 - i)) % 32 = (x / 32) >>> (5 * (n - 1 - i)) % 32 := by
    have step : 5 * (n + 1 - 1 - i) = 5 + 5 * (n - 1 - i) := by omega
    rw [step, Nat.shiftRight_add, Nat.shiftRight_eq_div_pow x 5]
  rw [lastDigits, lastDigits, List.range_succ, List.map_append]
  congr 1
  · apply List.map_congr_left
    intro i hi
    exact shift i (List.mem_range.mp hi)
  · simp

theorem ofDigits_lastDigits (n x : Nat) : ofDigits (lastDigits n x) = x % 32 ^ n := by
  induction n generalizing x with
  | zero => simp [lastDigits, ofDigits, Nat.mod_one]
  | succ n ih =>
    have head : ofDigits (lastDigits (n + 1) x) =
        ofDigits (lastDigits n (x / 32)) * 32 + x % 32 := by
      rw [lastDigits_succ, ofDigits, List.foldl_append]
      rfl
    rw [head, ih, Nat.pow_succ, Nat.mul_comm (32 ^ n) 32, Nat.mod_mul]
    omega

theorem lastDigits_lt (n x : Nat) : ∀ d ∈ lastDigits n x, d < 32 := by
  intro d hd
  obtain ⟨i, -, rfl⟩ := List.mem_map.mp hd
  exact Nat.mod_lt _ (by decide)

theorem digits_lt (u : Ulid) : ∀ d ∈ u.digits, d < 32 := lastDigits_lt 26 u.toNat

theorem byteLength_cons (c : Char) (cs : List Char) :
    byteLength (c :: cs) = c.utf8Size + byteLength cs := by
  have shift (cs : List Char) (n : Nat) :
      cs.foldl (fun n c => n + c.utf8Size) n = n + byteLength cs := by
    induction cs generalizing n with
    | nil => rfl
    | cons c rest ih => rw [byteLength, List.foldl_cons, List.foldl_cons, ih, ih]; omega
  rw [byteLength, List.foldl_cons, shift, Nat.zero_add]

theorem byteLength_eq_length {cs : List Char} (h : ∀ c ∈ cs, c.utf8Size = 1) :
    byteLength cs = cs.length := by
  induction cs with
  | nil => rfl
  | cons c rest ih =>
    obtain ⟨head, tail⟩ := List.forall_mem_cons.mp h
    rw [byteLength_cons, head, ih tail, List.length_cons, Nat.add_comm]

theorem byteLength_text {ds : List Nat} (h : ∀ d ∈ ds, d < 32) :
    byteLength (ds.map digitChar) = ds.length := by
  rw [byteLength_eq_length, List.length_map]
  intro c hc
  obtain ⟨d, hd, rfl⟩ := List.mem_map.mp hc
  exact utf8Size_digitChar d (h d hd)

theorem mapM_digit? {ds : List Nat} (h : ∀ d ∈ ds, d < 32) :
    (ds.map digitChar).mapM digit? = some ds := by
  induction ds with
  | nil => rfl
  | cons d rest ih =>
    obtain ⟨head, tail⟩ := List.forall_mem_cons.mp h
    simp [List.mapM_cons, digit?_digitChar d head, ih tail]

theorem ofDigits_digits (u : Ulid) : ofDigits u.digits = u.toNat := by
  have small : u.toNat < 32 ^ 26 := Nat.lt_trans u.isLt (by decide)
  rw [digits_eq, ofDigits_lastDigits, Nat.mod_eq_of_lt small]

/-- **Reading is the inverse of writing.** -/
theorem read_text (u : Ulid) : read u.text = .ok u := by
  have length : byteLength u.text = 26 := byteLength_text u.digits_lt
  rw [read, if_neg (not_not_intro length), text, mapM_digit? u.digits_lt]
  simp only [ofDigits_digits, BitVec.ofNat_toNat, BitVec.setWidth_eq]

end Ulid

namespace Uid

variable {t : UidTag}

theorem underscore_not_mem_tag (t : UidTag) : '_' ∉ t.text.toList := by
  cases t <;> decide

theorem toList_text (u : Uid t) : u.text.toList = t.text.toList ++ '_' :: u.ulid.text := by
  simp [text]

/-- What holds of tags, of the underscore and of digits holds throughout a text. -/
theorem forall_mem_text {P : Char → Prop} [DecidablePred P] (u : Uid t)
    (tag : ∀ t : UidTag, t.text.toList.all (P ·) = true) (mark : P '_')
    (digit : ∀ d < 32, P (Ulid.digitChar d)) : ∀ c ∈ u.text.toList, P c := by
  rw [toList_text]
  intro c hc
  rcases List.mem_append.mp hc with front | rest
  · exact of_decide_eq_true (List.all_eq_true.mp (tag t) c front)
  rcases List.mem_cons.mp rest with rfl | number
  · exact mark
  · obtain ⟨d, hd, rfl⟩ := List.mem_map.mp number
    exact digit d (u.ulid.digits_lt d hd)

theorem splitFirst_parts {tag rest : String} (free : '_' ∉ tag.toList) :
    Text.splitFirst '_' (tag ++ "_" ++ rest).toList = some (tag.toList, rest.toList) :=
  Text.splitFirst_eq_some_iff.mpr ⟨by simp, free⟩

theorem not_isEmpty_parts (tag rest : String) : ¬ (tag ++ "_" ++ rest).isEmpty = true := by
  rw [String.isEmpty_iff, ← String.toList_eq_nil_iff]
  simp

/-- Behind its own tag a uid is read as an identifier. -/
theorem read_own_tag (t : UidTag) {rest : String} {u : Ulid} (h : Ulid.read rest.toList = .ok u) :
    read t (t.text ++ "_" ++ rest) = .ok ⟨u⟩ := by
  rw [read, if_neg (not_isEmpty_parts _ _), splitFirst_parts (underscore_not_mem_tag t)]
  simp [h]

/-- **Reading is the inverse of writing.** -/
theorem read_text (u : Uid t) : read t u.text = .ok u := by
  apply read_own_tag
  rw [String.toList_ofList, Ulid.read_text]

end Uid

end PoolControl
