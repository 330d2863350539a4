import PoolControl.Timestamp
import Mathlib.Algebra.Group.Nat.Defs

/-! Timestamps are read from their texts.

What is read exists (`valid_of_read`), and a timestamp that exists is read from its text
(`read_text`). Numbers are written to a width, so that the reader of a part stops where the part
does: before the mark that follows, or after as many digits as it takes at most. -/
namespace PoolControl

theorem Text.trimLeft_cons {c : Char} {cs : List Char} (h : isBlank c = false) :
    trimLeft (c :: cs) = c :: cs := by
  simp [trimLeft, h]

theorem Text.isBlank_of_isDigit {c : Char} (h : c.isDigit = true) : isBlank c = false := by
  simp only [Char.isDigit, Bool.and_eq_true, decide_eq_true_eq] at h
  obtain ⟨low, high⟩ := h
  have low : 48 ≤ c.toNat := low
  have high : c.toNat ≤ 57 := high
  simp [isBlank]
  omega

namespace Timestamp

open Text

/-! ### Numbers -/

/-- The digits of a padded number. -/
def paddedDigits (width n : Nat) : List Char := (padded width n).toList

theorem paddedDigits_eq (width n : Nat) : paddedDigits width n =
    List.replicate (width - (Nat.toDigits 10 n).length) '0' ++ Nat.toDigits 10 n := by
  simp [paddedDigits, padded]

theorem isDigit_of_mem {width n : Nat} : ∀ c ∈ paddedDigits width n, c.isDigit = true := by
  intro c hc
  rw [paddedDigits_eq] at hc
  rcases List.mem_append.mp hc with zero | digit
  · rw [List.eq_of_mem_replicate zero]
    rfl
  · exact Nat.isDigit_of_mem_toDigits (by decide) (by decide) digit

theorem length_paddedDigits {width n : Nat} (pos : 0 < width) (h : n < 10 ^ width) :
    (paddedDigits width n).length = width := by
  have short := (Nat.length_toDigits_le_iff (by decide) pos).mpr h
  rw [paddedDigits_eq, List.length_append, List.length_replicate]
  omega

theorem paddedDigits_ne_nil (width n : Nat) : paddedDigits width n ≠ [] := by
  rw [paddedDigits_eq]
  exact List.append_ne_nil_of_right_ne_nil _ Nat.toDigits_ne_nil

theorem digitsValue_paddedDigits (width n : Nat) : digitsValue (paddedDigits width n) = n := by
  have zeros (k : Nat) : digitsValue (List.replicate k '0') = 0 := by
    induction k with
    | zero => rfl
    | succ k ih => exact ih
  have value (cs : List Char) : digitsValue cs = Nat.ofDigitChars 10 cs 0 := by
    simp only [digitsValue, Nat.ofDigitChars, Nat.mul_comm]
  have split (k : Nat) (cs : List Char) :
      digitsValue (List.replicate k '0' ++ cs) = digitsValue cs := by
    rw [digitsValue, List.foldl_append]
    exact congrArg (fun v => List.foldl _ v cs) (zeros k)
  rw [paddedDigits_eq, split, value, Nat.ofDigitChars_toDigits (by decide) (by decide)]

/-- A padded number begins with a digit. -/
theorem paddedDigits_cons (width n : Nat) :
    ∃ c cs, paddedDigits width n = c :: cs ∧ c.isDigit = true := by
  cases h : paddedDigits width n with
  | nil => exact absurd h (paddedDigits_ne_nil width n)
  | cons c cs => exact ⟨c, cs, rfl, isDigit_of_mem c (h ▸ List.mem_cons_self)⟩

theorem trimLeft_paddedDigits (width n : Nat) (rest : List Char) :
    trimLeft (paddedDigits width n ++ rest) = paddedDigits width n ++ rest := by
  obtain ⟨c, cs, h, digit⟩ := paddedDigits_cons width n
  rw [h, List.cons_append, trimLeft_cons (isBlank_of_isDigit digit)]

theorem takeWhile_paddedDigits (width n : Nat) (mark : Char) (h : mark.isDigit = false)
    (rest : List Char) :
    (paddedDigits width n ++ mark :: rest).takeWhile Char.isDigit = paddedDigits width n := by
  rw [List.takeWhile_append_of_pos isDigit_of_mem]
  simp [h]

/-- A number is read up to its width. -/
theorem readNumber_paddedDigits {width n : Nat} (pos : 0 < width) (h : n < 10 ^ width)
    (rest : List Char) : readNumber width (paddedDigits width n ++ rest) = some (n, rest) := by
  have length := length_paddedDigits pos h
  have first : (paddedDigits width n ++ rest).take width = paddedDigits width n := by
    rw [List.take_append_of_le_length (by omega), List.take_of_length_le (by omega)]
  have split : (paddedDigits width n ++ []).takeWhile Char.isDigit =
      paddedDigits width n ++ [].takeWhile Char.isDigit :=
    List.takeWhile_append_of_pos isDigit_of_mem
  have all : (paddedDigits width n).takeWhile Char.isDigit = paddedDigits width n := by
    simpa using split
  simp only [readNumber, trimLeft_paddedDigits, first, all, List.isEmpty_iff,
    paddedDigits_ne_nil, if_false, digitsValue_paddedDigits, List.drop_left]

theorem readNumber_two {n : Nat} (h : n < 100) (rest : List Char) :
    readNumber 2 (paddedDigits 2 n ++ rest) = some (n, rest) :=
  readNumber_paddedDigits (by decide) h rest

/-- Without a width, a number is read up to the mark behind it. -/
theorem readUnspaced_paddedDigits (width n : Nat) (mark : Char) (h : mark.isDigit = false)
    (rest : List Char) :
    readYear.readUnspaced (paddedDigits width n ++ mark :: rest) = some (n, mark :: rest) := by
  simp only [readYear.readUnspaced, takeWhile_paddedDigits width n mark h, List.isEmpty_iff,
    paddedDigits_ne_nil, if_false, digitsValue_paddedDigits, List.drop_left]

/-! ### The parts of a text -/

theorem dropMark_cons (mark : Char) (h : isBlank mark = false) (rest : List Char) :
    dropMark mark (mark :: rest) = some rest := by
  simp [dropMark, trimLeft_cons h]

theorem readYear_plain {n : Nat} (h : n ≤ 9999) (rest : List Char) :
    readYear (paddedDigits 4 n ++ '-' :: rest) = some ((n : Int), '-' :: rest) := by
  have number : readNumber 4 (paddedDigits 4 n ++ '-' :: rest) = some (n, '-' :: rest) :=
    readNumber_paddedDigits (by decide) (by omega) _
  obtain ⟨c, cs, split_, digit⟩ := paddedDigits_cons 4 n
  rw [split_, List.cons_append] at number ⊢
  unfold readYear
  rw [trimLeft_cons (isBlank_of_isDigit digit)]
  -- a digit is not taken for a sign
  split
  next same =>
    obtain ⟨rfl, -⟩ := List.cons.inj same
    exact absurd digit (by decide)
  next same =>
    obtain ⟨rfl, -⟩ := List.cons.inj same
    exact absurd digit (by decide)
  next => rw [number, Option.map_some]

theorem readYear_negative (n : Nat) (rest : List Char) :
    readYear ('-' :: (paddedDigits 4 n ++ '-' :: rest)) = some (-(n : Int), '-' :: rest) := by
  have sign (cs : List Char) : trimLeft ('-' :: cs) = '-' :: cs := rfl
  simp only [readYear, sign, readUnspaced_paddedDigits 4 n '-' rfl rest, Option.map_some]

theorem readYear_positive (n : Nat) (rest : List Char) :
    readYear ('+' :: (paddedDigits 4 n ++ '-' :: rest)) = some ((n : Int), '-' :: rest) := by
  have sign (cs : List Char) : trimLeft ('+' :: cs) = '+' :: cs := rfl
  simp only [readYear, sign, readUnspaced_paddedDigits 4 n '-' rfl rest, Option.map_some]

/-- A year is read from its text when a dash follows. -/
theorem readYear_yearText (y : Int) (rest : List Char) :
    readYear ((yearText y).toList ++ '-' :: rest) = some (y, '-' :: rest) := by
  unfold yearText
  split
  next plain =>
    have value : ((y.toNat : Nat) : Int) = y := Int.toNat_of_nonneg plain.1
    have year := readYear_plain (show y.toNat ≤ 9999 by omega) rest
    rwa [value] at year
  next signed =>
    rw [String.toList_append, List.append_assoc]
    split
    next below =>
      have value : -((y.natAbs : Nat) : Int) = y := by omega
      have year := readYear_negative y.natAbs rest
      rwa [value] at year
    next above =>
      have value : ((y.natAbs : Nat) : Int) = y := by omega
      have year := readYear_positive y.natAbs rest
      rwa [value] at year

theorem readFraction_digits {width n : Nat} (pos : 0 < width) (most : width ≤ 9)
    (h : n < 10 ^ width) (mark : Char) (plain : mark.isDigit = false) (rest : List Char) :
    readFraction ('.' :: (paddedDigits width n ++ mark :: rest)) =
      some (n * 10 ^ (9 - width), mark :: rest) := by
  have length := length_paddedDigits pos h
  have kept : (paddedDigits width n).take 9 = paddedDigits width n :=
    List.take_of_length_le (by omega)
  simp only [readFraction, takeWhile_paddedDigits width n mark plain, List.isEmpty_iff,
    paddedDigits_ne_nil, if_false, kept, digitsValue_paddedDigits, List.drop_left' length, length,
    Nat.pow_eq]

/-- A fraction of a second is read from its text when a `Z` follows. -/
theorem readFraction_fractionText {nanos : Nat} (h : nanos < 1000000000) :
    readFraction ((fractionText nanos).toList ++ ['Z']) = some (nanos, ['Z']) := by
  -- each width leaves out trailing zeros only
  have point (width n : Nat) (pos : 0 < width) (most : width ≤ 9) (short : n < 10 ^ width)
      (value : n * 10 ^ (9 - width) = nanos) :
      readFraction (("." ++ padded width n).toList ++ ['Z']) = some (nanos, ['Z']) := by
    rw [String.toList_append, ← value]
    exact readFraction_digits pos most short 'Z' rfl []
  unfold fractionText
  split
  next zero =>
    subst zero
    rfl
  split
  next => exact point 3 _ (by decide) (by decide) (by omega) (by omega)
  split
  next => exact point 6 _ (by decide) (by decide) (by omega) (by omega)
  next => exact point 9 _ (by decide) (by decide) h (by omega)

/-- A time of day without an offset is a time in UTC. -/
theorem toUtc_zero {t : Timestamp} (h : t.Valid) : t.toUtc 0 = t := by
  obtain ⟨year, month, day, hour, minute, second, nanos⟩ := t
  have hour_lt : hour < 24 := h.hour_lt
  have minute_lt : minute < 60 := h.minute_lt
  have before : ¬ ((hour : Int) * 60 + minute - 0 < 0) := by omega
  have after : ¬ (1440 ≤ (hour : Int) * 60 + minute - 0) := by omega
  simp only [toUtc, before, after, if_false, Timestamp.mk.injEq, true_and, and_true]
  omega

theorem Valid.day_le_31 {t : Timestamp} (h : t.Valid) : t.day ≤ 31 := by
  have day := h.day_le
  unfold daysInMonth at day
  repeat' split at day
  all_goals omega

/-! ### The whole text -/

/-- A date and a time of day are read from their text. -/
theorem readDate_text {t : Timestamp} (h : t.Valid) (rest : List Char) :
    readDate ((yearText t.year).toList ++ '-' :: (paddedDigits 2 t.month ++ '-' ::
      (paddedDigits 2 t.day ++ rest))) = some ((t.year, t.month, t.day), rest) := by
  have month_le := h.month_le
  have day_le := h.day_le_31
  have month := readNumber_two (show t.month < 100 by omega)
  have day := readNumber_two (show t.day < 100 by omega)
  have dash := dropMark_cons '-' rfl
  simp only [readDate, readYear_yearText, dash, month, day, Option.bind_eq_bind, Option.bind_some,
    Option.pure_def]

theorem readTime_text {t : Timestamp} (h : t.Valid) :
    readTime (paddedDigits 2 t.hour ++ ':' :: (paddedDigits 2 t.minute ++ ':' ::
      (paddedDigits 2 t.second ++ ((fractionText t.nanos).toList ++ ['Z'])))) =
        some ((t.hour, t.minute, t.second, t.nanos), ['Z']) := by
  have hour_lt := h.hour_lt
  have minute_lt := h.minute_lt
  have second_le := h.second_le
  have hour := readNumber_two (show t.hour < 100 by omega)
  have minute := readNumber_two (show t.minute < 100 by omega)
  have second := readNumber_two (show t.second < 100 by omega)
  have colon := dropMark_cons ':' rfl
  simp only [readTime, colon, hour, minute, second, readFraction_fractionText h.nanos_lt,
    Option.bind_eq_bind, Option.bind_some, Option.pure_def]

/-- What is read exists. -/
theorem valid_of_read {s : String} {t : Timestamp} (h : read s = some t) : t.Valid := by
  simp only [read, Option.bind_eq_bind, Option.bind_eq_some_iff] at h
  obtain ⟨_, _, _, _, _, _, _, _, h⟩ := h
  split at h
  next all =>
    cases h
    exact all.2.2
  next => cases h

/-- A timestamp that exists is read from its text. -/
theorem read_text {t : Timestamp} (h : t.Valid) : read t.text = some t := by
  have parts : t.text.toList = (yearText t.year).toList ++ '-' :: (paddedDigits 2 t.month ++ '-' ::
      (paddedDigits 2 t.day ++ 'T' :: (paddedDigits 2 t.hour ++ ':' :: (paddedDigits 2 t.minute ++
        ':' :: (paddedDigits 2 t.second ++ ((fractionText t.nanos).toList ++ ['Z'])))))) := by
    simp [text, paddedDigits]
  have offset : readOffset ['Z'] = some (0, []) := rfl
  have here : (⟨t.year, t.month, t.day, t.hour, t.minute, t.second, t.nanos⟩ : Timestamp) = t := rfl
  have separator (cs : List Char) : dropSeparator ('T' :: cs) = some cs := by simp [dropSeparator]
  have rest : trimLeft [] = [] := rfl
  simp [read, parts, readDate_text h, separator, readTime_text h, offset, here, toUtc_zero h, h,
    rest]

end Timestamp

end PoolControl
