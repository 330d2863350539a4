import Mathlib.Data.Nat.Digits.Defs
import PoolControl.Proofs.Identity

/-! Numerals in base 32.

A digit is an ASCII letter or decimal digit other than I, L, O and U, and letters count on from the
decimal digits, without those left out (`digit?_eq`). Equally long numerals compare as their
numbers do (`ofDigits_lt_ofDigits_iff`), and a numeral is the one of its length that its number has
(`lastDigits_ofDigits`). -/
namespace PoolControl.Ulid

/-! ### Digits -/

/-- The letters that are no digits. -/
def leftOut : List Char := ['I', 'L', 'O', 'U']

/-- A digit in either case. -/
def IsDigit (c : Char) : Prop := c.isAlphanum = true ∧ c.toUpper ∉ leftOut

instance : DecidablePred IsDigit := fun _ => inferInstanceAs (Decidable (_ ∧ _))

/-- What a digit counts. -/
def worth (c : Char) : Nat :=
  if c.isDigit then c.toNat - '0'.toNat
  else c.toUpper.toNat - 'A'.toNat + 10 - leftOut.countP (· < c.toUpper)

/-- Digits are ASCII characters. -/
theorem IsDigit.toNat_lt {c : Char} (h : IsDigit c) : c.toNat < 128 := by
  have ranges : ((decide ('A'.val ≤ c.val ∧ c.val ≤ 'Z'.val) ||
      ('a'.val ≤ c.val && c.val ≤ 'z'.val)) || ('0'.val ≤ c.val && c.val ≤ '9'.val)) = true := h.1
  simp only [Bool.or_eq_true, Bool.and_eq_true, decide_eq_true_eq, UInt32.le_iff_toNat_le,
    Char.toNat_val, Char.reduceToNat] at ranges
  omega

theorem digit?_of_le {c : Char} (h : 128 ≤ c.toNat) : digit? c = none := by
  have large : ¬ ('a'.val ≤ c.val ∧ c.val ≤ 'z'.val) := by
    simp only [UInt32.le_iff_toNat_le, Char.toNat_val, Char.reduceToNat]
    omega
  have caseless : c.toUpper = c := dif_neg large
  have ascii : alphabet.all (·.toNat < 128) = true := by decide
  rw [digit?, List.findIdx?_eq_none_iff, caseless]
  intro x hx
  have := of_decide_eq_true (List.all_eq_true.mp ascii x hx)
  rw [beq_eq_false_iff_ne]
  rintro rfl
  omega

/-- **Digits count on in their order.** -/
theorem digit?_eq (c : Char) : digit? c = if IsDigit c then some (worth c) else none := by
  have ascii : ∀ n < 128, digit? (.ofNat n) =
      if IsDigit (.ofNat n) then some (worth (.ofNat n)) else none := by
    decide +kernel
  by_cases low : c.toNat < 128
  · have counted := ascii c.toNat low
    rwa [Char.ofNat_toNat] at counted
  · rw [digit?_of_le (Nat.not_lt.mp low), if_neg (mt IsDigit.toNat_lt low)]

theorem digitChar_worth {c : Char} (h : IsDigit c) :
    worth c < 32 ∧ digitChar (worth c) = c.toUpper := by
  have ascii : ∀ n < 128, IsDigit (.ofNat n) →
      worth (.ofNat n) < 32 ∧ digitChar (worth (.ofNat n)) = (Char.ofNat n).toUpper := by
    decide +kernel
  have written := ascii c.toNat h.toNat_lt
  rw [Char.ofNat_toNat] at written
  exact written h

section
variable {cs : List Char} (h : ∀ c ∈ cs, IsDigit c)
include h

theorem worth_lt_of_digits : ∀ d ∈ cs.map worth, d < 32 := by
  intro d hd
  obtain ⟨c, hc, rfl⟩ := List.mem_map.mp hd
  exact (digitChar_worth (h c hc)).1

theorem map_digitChar_worth : (cs.map worth).map digitChar = cs.map Char.toUpper := by
  rw [List.map_map]
  apply List.map_congr_left
  intro c hc
  exact (digitChar_worth (h c hc)).2

end

/-! ### Numerals -/

theorem foldl_digits (ds : List Nat) (v : Nat) :
    ds.foldl (fun v d => v * 32 + d) v = v * 32 ^ ds.length + Nat.ofDigits 32 ds.reverse := by
  induction ds generalizing v with
  | nil => simp
  | cons d ds ih =>
    rw [List.foldl_cons, ih, List.reverse_cons, Nat.ofDigits_append, Nat.ofDigits_singleton,
      List.length_reverse, List.length_cons, Nat.pow_succ, Nat.add_mul]
    rw [Nat.mul_assoc, Nat.mul_comm 32, Nat.mul_comm d]
    omega

/-- Read from the last digit on, a numeral is one in the usual sense. -/
theorem ofDigits_eq (ds : List Nat) : ofDigits ds = Nat.ofDigits 32 ds.reverse := by
  rw [ofDigits, foldl_digits, Nat.zero_mul, Nat.zero_add]

theorem ofDigits_cons (d : Nat) (ds : List Nat) :
    ofDigits (d :: ds) = d * 32 ^ ds.length + ofDigits ds := by
  rw [ofDigits, List.foldl_cons, foldl_digits, ofDigits_eq, Nat.zero_mul, Nat.zero_add]

theorem ofDigits_lt {ds : List Nat} (h : ∀ d ∈ ds, d < 32) : ofDigits ds < 32 ^ ds.length := by
  rw [ofDigits_eq, ← List.length_reverse]
  exact Nat.ofDigits_lt_base_pow_length (by decide) (by simpa using h)

/-- The highest digit decides. -/
theorem mul_add_lt_mul_add {b d e x : Nat} (h : d < e) (low : x < b) (y : Nat) :
    d * b + x < e * b + y := by
  have step := Nat.mul_le_mul_right b (Nat.succ_le_of_lt h)
  rw [Nat.succ_mul] at step
  omega

/-- Equally long numerals compare as their numbers do. -/
theorem ofDigits_lt_ofDigits_iff {ds es : List Nat} (same : ds.length = es.length)
    (hd : ∀ d ∈ ds, d < 32) (he : ∀ e ∈ es, e < 32) : ofDigits ds < ofDigits es ↔ ds < es := by
  induction ds generalizing es with
  | nil =>
    obtain rfl := List.length_eq_zero_iff.mp same.symm
    simp
  | cons d ds ih =>
    cases es with
    | nil => cases same
    | cons e es =>
      have same : ds.length = es.length := Nat.succ.inj same
      obtain ⟨-, hd⟩ := List.forall_mem_cons.mp hd
      obtain ⟨-, he⟩ := List.forall_mem_cons.mp he
      have low := ofDigits_lt hd
      have low' := ofDigits_lt he
      rw [List.cons_lt_cons_iff, ← ih same hd he, ofDigits_cons, ofDigits_cons, same]
      rw [same] at low
      rcases Nat.lt_trichotomy d e with less | rfl | more
      · have := mul_add_lt_mul_add less low (ofDigits es)
        omega
      · omega
      · have := mul_add_lt_mul_add more low' (ofDigits ds)
        omega

theorem eq_of_ofDigits_eq {ds es : List Nat} (same : ds.length = es.length)
    (hd : ∀ d ∈ ds, d < 32) (he : ∀ e ∈ es, e < 32) (h : ofDigits ds = ofDigits es) : ds = es := by
  rw [ofDigits_eq, ofDigits_eq] at h
  exact List.reverse_inj.mp (Nat.ofDigits_inj_of_len_eq (by decide) (by simpa using same)
    (by simpa using hd) (by simpa using he) h)

theorem length_lastDigits (n x : Nat) : (lastDigits n x).length = n := by
  simp [lastDigits]

/-- A numeral is the one of its length that its number has. -/
theorem lastDigits_ofDigits {ds : List Nat} (h : ∀ d ∈ ds, d < 32) :
    lastDigits ds.length (ofDigits ds) = ds := by
  apply eq_of_ofDigits_eq (length_lastDigits _ _) (lastDigits_lt _ _) h
  rw [ofDigits_lastDigits, Nat.mod_eq_of_lt (ofDigits_lt h)]

end PoolControl.Ulid
