import PoolControl.Proofs.Identity.Text

/-! The order of uids.

Digits are in the order of their characters, and the texts of uids are equally long, so that uids
compare as their texts do, byte by byte (`Uid.bytes_text_lt_iff`). The time is in the highest bits,
so that an earlier uid is a smaller one (`Ulid.toNat_lt_of_millis_lt`). Sorting by value, by text
and, where no two times are the same, by time is therefore the same. -/
namespace PoolControl

namespace Text

theorem bytes_ascii {cs : List Char} (h : ∀ c ∈ cs, c.toNat < 128) :
    bytes (.ofList cs) = cs.map fun c => c.val.toUInt8 := by
  rw [bytes_ofList]
  induction cs with
  | nil => rfl
  | cons c rest ih =>
    obtain ⟨head, tail⟩ := List.forall_mem_cons.mp h
    rw [List.flatMap_cons, ih tail, String.utf8EncodeChar_eq_singleton (utf8Size_eq_one head)]
    rfl

/-- What two texts have in front of them does not change their order. -/
theorem append_lt_append_iff (front a b : List UInt8) : front ++ a < front ++ b ↔ a < b := by
  induction front with
  | nil => rfl
  | cons x front ih => simp [ih]

/-- The order of bytes. -/
def ascends (s s' : String) : Bool := bytes s ≤ bytes s'

end Text

namespace Ulid

/-- The byte of a digit. -/
def digitByte (d : Nat) : UInt8 := (digitChar d).val.toUInt8

/-- The characters of the digits are in the order of their values. -/
theorem digitByte_lt_iff : ∀ d < 32, ∀ e < 32,
    (digitByte d < digitByte e ↔ d < e) ∧ (digitByte d = digitByte e ↔ d = e) := by
  decide

theorem map_digitByte_lt_iff {ds es : List Nat} (hd : ∀ d ∈ ds, d < 32) (he : ∀ e ∈ es, e < 32) :
    ds.map digitByte < es.map digitByte ↔ ds < es := by
  induction ds generalizing es with
  | nil => cases es <;> simp
  | cons d ds ih =>
    cases es with
    | nil => simp
    | cons e es =>
      obtain ⟨d_lt, hd⟩ := List.forall_mem_cons.mp hd
      obtain ⟨e_lt, he⟩ := List.forall_mem_cons.mp he
      obtain ⟨less, same⟩ := digitByte_lt_iff d d_lt e e_lt
      rw [List.map_cons, List.map_cons, List.cons_lt_cons_iff, List.cons_lt_cons_iff, less, same,
        ih hd he]

theorem digits_lt_digits_iff {u v : Ulid} : u.digits < v.digits ↔ u.toNat < v.toNat := by
  have same : u.digits.length = v.digits.length := by
    rw [digits_eq, digits_eq, length_lastDigits, length_lastDigits]
  rw [← ofDigits_digits u, ← ofDigits_digits v,
    ofDigits_lt_ofDigits_iff same u.digits_lt v.digits_lt]

theorem toNat_lt_of_millis_lt {u v : Ulid} (h : u.millis < v.millis) : u.toNat < v.toNat := by
  rw [millis, millis, Nat.shiftRight_eq_div_pow, Nat.shiftRight_eq_div_pow] at h
  exact Nat.lt_of_div_lt_div h

theorem millis_le_of_toNat_le {u v : Ulid} (h : u.toNat ≤ v.toNat) : u.millis ≤ v.millis :=
  Nat.le_of_not_lt fun later => Nat.not_lt.mpr h (toNat_lt_of_millis_lt later)

end Ulid

namespace Uid

variable {t : UidTag}

theorem toNat_lt_of_mem_text (u : Uid t) : ∀ c ∈ u.text.toList, c.toNat < 128 :=
  u.forall_mem_text (fun t => by cases t <;> decide) (by decide) (by decide)

theorem bytes_text (u : Uid t) : Text.bytes u.text =
    (t.text.toList ++ ['_']).map (fun c => c.val.toUInt8) ++ u.ulid.digits.map Ulid.digitByte := by
  have ascii := Text.bytes_ascii u.toNat_lt_of_mem_text
  rw [String.ofList_toList] at ascii
  rw [ascii, toList_text, Ulid.text]
  simp [Ulid.digitByte]

theorem bytes_text_lt_iff {a b : Uid t} :
    Text.bytes a.text < Text.bytes b.text ↔ a.ulid.toNat < b.ulid.toNat := by
  rw [bytes_text, bytes_text, Text.append_lt_append_iff,
    Ulid.map_digitByte_lt_iff a.ulid.digits_lt b.ulid.digits_lt, Ulid.digits_lt_digits_iff]

theorem compare_eq_lt {a b : Uid t} : compare a b = .lt ↔ a.ulid.toNat < b.ulid.toNat :=
  Nat.compare_eq_lt

/-! ### Sorting -/

/-- The order of uids. -/
def ascends (a b : Uid t) : Bool := (compare a b).isLE

/-- The order of creation. -/
def noLater (a b : Uid t) : Bool := a.ulid.millis ≤ b.ulid.millis

theorem ascends_iff {a b : Uid t} : ascends a b = true ↔ a.ulid.toNat ≤ b.ulid.toNat :=
  Nat.isLE_compare

theorem ascends_text (a b : Uid t) : ascends a b = Text.ascends a.text b.text := by
  rw [Bool.eq_iff_iff, ascends_iff, Text.ascends, decide_eq_true_eq, ← List.not_lt,
    bytes_text_lt_iff, Nat.not_lt]

/-- Sorted uids are in the order of creation. -/
theorem pairwise_mergeSort (us : List (Uid t)) :
    (us.mergeSort ascends).Pairwise fun a b => a.ulid.millis ≤ b.ulid.millis := by
  have sorted : (us.mergeSort ascends).Pairwise fun a b => ascends a b = true := by
    apply List.pairwise_mergeSort
    · intro a b c hab hbc
      rw [ascends_iff] at *
      exact Nat.le_trans hab hbc
    · intro a b
      rw [Bool.or_eq_true, ascends_iff, ascends_iff]
      exact Nat.le_total _ _
  exact sorted.imp fun h => Ulid.millis_le_of_toNat_le (ascends_iff.mp h)

/-- Where the times tell uids apart, they are in the order of their times. -/
theorem noLater_eq_ascends {a b : Uid t} (apart : a.ulid.millis = b.ulid.millis → a = b) :
    noLater a b = ascends a b := by
  rw [Bool.eq_iff_iff, ascends_iff, noLater, decide_eq_true_eq]
  refine ⟨fun h => ?_, Ulid.millis_le_of_toNat_le⟩
  rcases Nat.lt_or_eq_of_le h with earlier | together
  · exact Nat.le_of_lt (Ulid.toNat_lt_of_millis_lt earlier)
  · rw [apart together]

/-- **Uids are in the order of their texts and of their times.** Sorting uids sorts their texts by
bytes and the uids by their times, and is the same as sorting by time where no two uids have the
same. -/
theorem ordered_as_written (t : UidTag) :
    (∀ a b : Uid t, compare a b = .lt ↔ Text.bytes a.text < Text.bytes b.text) ∧
      (∀ a b : Uid t, a.ulid.millis < b.ulid.millis → compare a b = .lt) ∧
      (∀ us : List (Uid t),
        (us.mergeSort ascends).map text = (us.map text).mergeSort Text.ascends) ∧
      (∀ us : List (Uid t),
        (us.mergeSort ascends).Pairwise fun a b => a.ulid.millis ≤ b.ulid.millis) ∧
      (∀ us : List (Uid t),
        (∀ a ∈ us, ∀ b ∈ us, a.ulid.millis = b.ulid.millis → a = b) →
        us.mergeSort noLater = us.mergeSort ascends) := by
  refine ⟨fun a b => ?_, fun a b earlier => ?_, fun us => ?_, pairwise_mergeSort,
    fun us apart => ?_⟩
  · rw [compare_eq_lt, bytes_text_lt_iff]
  · exact compare_eq_lt.mpr (Ulid.toNat_lt_of_millis_lt earlier)
  · exact List.map_mergeSort fun a _ b _ => ascends_text a b
  · have same := List.map_mergeSort (r := noLater) (s := ascends) (f := id) (l := us)
      fun a ha b hb => noLater_eq_ascends (apart a ha b hb)
    rwa [List.map_id, List.map_id] at same

end Uid

end PoolControl
