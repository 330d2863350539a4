import PoolControl.Proofs.Identity.Numeral
import PoolControl.Proofs.Json.Plain
import PoolControl.Resource.Metadata

/-! Which texts are uids.

A uid is read from its tag, an underscore and 26 digits in either case (`Uid.Spells`), and from
nothing else (`Uid.read_eq_error_iff`). The digits write a number that counts modulo `2 ^ 128`, so
that the canonical text has them in upper case and the first one modulo eight
(`Ulid.text_number`). -/
namespace PoolControl

namespace Text

/-! ### Bytes -/

/-- A text in UTF-8. -/
def bytes (s : String) : List UInt8 := s.toByteArray.data.toList

theorem bytes_ofList (cs : List Char) : bytes (.ofList cs) = cs.flatMap String.utf8EncodeChar := by
  rw [bytes, String.toByteArray_ofList, List.utf8Encode, List.data_toByteArray]

theorem utf8Size_eq_one {c : Char} (h : c.toNat < 128) : c.utf8Size = 1 :=
  Char.utf8Size_eq_one_iff.mpr (UInt32.le_iff_toNat_le.mpr (Nat.le_of_lt_succ h))

end Text

namespace Ulid

/-! ### 26 digits -/

/-- A text of 26 digits. -/
structure Spells (cs : List Char) : Prop where
  length : cs.length = 26
  digits : ∀ c ∈ cs, IsDigit c

/-- The number that digits write, most significant first. -/
def number (cs : List Char) : Nat := Nat.ofDigits 32 (cs.map worth).reverse

/-- The digits in upper case, the first one modulo eight. -/
def canonical : List Char → List Char
  | [] => []
  | c :: cs => Nat.digitChar (worth c % 8) :: cs.map Char.toUpper

/-- The same digits up to case and the two highest bits of the first one. -/
def Alike : List Char → List Char → Prop
  | c :: cs, d :: ds => worth c % 8 = worth d % 8 ∧ cs.map Char.toUpper = ds.map Char.toUpper
  | cs, ds => cs = ds

variable {cs ds : List Char}

theorem byteLength_eq (cs : List Char) : byteLength cs = (Text.bytes (.ofList cs)).length := by
  rw [Text.bytes_ofList]
  induction cs with
  | nil => rfl
  | cons c rest ih =>
    rw [byteLength_cons, ih, List.flatMap_cons, List.length_append, String.length_utf8EncodeChar]

theorem byteLength_of_digits (h : ∀ c ∈ cs, IsDigit c) : byteLength cs = cs.length :=
  byteLength_eq_length fun c hc => Text.utf8Size_eq_one (h c hc).toNat_lt

/-- 26 bytes of digits are 26 digits. -/
theorem spells_iff : Spells cs ↔ byteLength cs = 26 ∧ ∀ c ∈ cs, IsDigit c := by
  constructor
  · rintro ⟨length, digits⟩
    exact ⟨(byteLength_of_digits digits).trans length, digits⟩
  · rintro ⟨size, digits⟩
    exact ⟨(byteLength_of_digits digits).symm.trans size, digits⟩

theorem mapM_digit?_of_digits (h : ∀ c ∈ cs, IsDigit c) :
    cs.mapM digit? = some (cs.map worth) := by
  induction cs with
  | nil => rfl
  | cons c cs ih =>
    obtain ⟨head, tail⟩ := List.forall_mem_cons.mp h
    rw [List.mapM_cons, ih tail, digit?_eq, if_pos head]
    rfl

theorem mapM_digit?_eq_none {c : Char} (hc : c ∈ cs) (h : ¬ IsDigit c) :
    cs.mapM digit? = none := by
  induction cs with
  | nil => cases hc
  | cons d cs ih =>
    rw [List.mapM_cons, digit?_eq]
    by_cases head : IsDigit d
    · have rest : c ∈ cs := (List.mem_cons.mp hc).resolve_left fun same => h (same ▸ head)
      simp [if_pos head, ih rest]
    · simp [if_neg head]

theorem read_of_spells (h : Spells cs) : read cs = .ok (.ofNat 128 (number cs)) := by
  obtain ⟨size, digits⟩ := spells_iff.mp h
  rw [read, if_neg (not_not_intro size), mapM_digit?_of_digits digits, number, ← ofDigits_eq]

theorem read_of_length (h : byteLength cs ≠ 26) : read cs = .error .length :=
  if_pos h

theorem read_of_character {c : Char} (size : byteLength cs = 26) (hc : c ∈ cs)
    (h : ¬ IsDigit c) : read cs = .error .character := by
  rw [read, if_neg (not_not_intro size), mapM_digit?_eq_none hc h]

/-- The first of 26 digits counts modulo eight only. -/
theorem ofDigits_mod {d : Nat} {ds : List Nat} (length : ds.length = 25)
    (h : ∀ d ∈ ds, d < 32) : ofDigits (d :: ds) % 2 ^ 128 = ofDigits (d % 8 :: ds) := by
  have low := ofDigits_lt h
  rw [ofDigits_cons, ofDigits_cons]
  rw [length] at low ⊢
  omega

theorem digits_number {c : Char} (h : Spells (c :: cs)) :
    digits (.ofNat 128 (number (c :: cs))) = worth c % 8 :: cs.map worth := by
  have small := worth_lt_of_digits (List.forall_mem_cons.mp h.digits).2
  have length : (cs.map worth).length = 25 := by simpa using h.length
  have reduced : ∀ d ∈ worth c % 8 :: cs.map worth, d < 32 :=
    List.forall_mem_cons.mpr ⟨by omega, small⟩
  have value : (BitVec.ofNat 128 (number (c :: cs))).toNat =
      ofDigits (worth c % 8 :: cs.map worth) := by
    rw [BitVec.toNat_ofNat, number, ← ofDigits_eq, List.map_cons, ofDigits_mod length small]
  have numeral := lastDigits_ofDigits reduced
  rw [List.length_cons, length] at numeral
  rw [digits_eq, value, numeral]

theorem text_number (h : Spells cs) : text (.ofNat 128 (number cs)) = canonical cs := by
  have first : ∀ d < 8, digitChar d = Nat.digitChar d := by decide
  cases cs with
  | nil => cases h.length
  | cons c cs =>
    rw [text, digits_number h, List.map_cons, canonical, first _ (Nat.mod_lt _ (by decide)),
      map_digitChar_worth (List.forall_mem_cons.mp h.digits).2]

theorem canonical_eq_iff : canonical cs = canonical ds ↔ Alike cs ds := by
  have digit : ∀ a < 8, ∀ b < 8, Nat.digitChar a = Nat.digitChar b ↔ a = b := by decide
  cases cs with
  | nil => cases ds <;> simp [canonical, Alike]
  | cons c cs =>
    cases ds with
    | nil => simp [canonical, Alike]
    | cons d ds =>
      rw [canonical, canonical, List.cons.injEq, Alike,
        digit _ (Nat.mod_lt _ (by decide)) _ (Nat.mod_lt _ (by decide))]

theorem text_inj {u v : Ulid} : u.text = v.text ↔ u = v := by
  refine ⟨fun h => ?_, congrArg text⟩
  have same := read_text u
  rw [h, read_text] at same
  exact (Except.ok.inj same).symm

end Ulid

namespace Uid

open Ulid (IsDigit number canonical Alike)

/-! ### Behind a tag -/

/-- The tag, an underscore and 26 digits. -/
structure Spells (t : UidTag) (cs : List Char) (s : String) : Prop where
  text : s = t.text ++ "_" ++ .ofList cs
  digits : Ulid.Spells cs

/-- What is wrong with a text. -/
inductive Fails (t : UidTag) : String → ReadError → Prop
  | empty : Fails t "" .empty
  | missingSeparator {s : String} : s ≠ "" → '_' ∉ s.toList → Fails t s .missingSeparator
  | wrongTag {tag rest : String} : '_' ∉ tag.toList → tag ≠ t.text →
      Fails t (tag ++ "_" ++ rest) (.wrongTag t.text tag)
  | length {rest : String} : (Text.bytes rest).length ≠ 26 →
      Fails t (t.text ++ "_" ++ rest) (.ulid .length)
  | character {rest : String} {c : Char} : (Text.bytes rest).length = 26 → c ∈ rest.toList →
      ¬ IsDigit c → Fails t (t.text ++ "_" ++ rest) (.ulid .character)

variable {t : UidTag} {s : String} {cs : List Char} {e : ReadError}

/-- A text with an underscore is what is before the first one and what is behind it. -/
theorem exists_parts (h : '_' ∈ s.toList) :
    ∃ tag rest : String, s = tag ++ "_" ++ rest ∧ '_' ∉ tag.toList := by
  cases parts : Text.splitFirst '_' s.toList with
  | none => exact absurd h (Text.splitFirst_eq_none_iff.mp parts)
  | some p =>
    obtain ⟨same, free⟩ := Text.splitFirst_eq_some_iff.mp parts
    refine ⟨.ofList p.1, .ofList p.2, ?_, by rwa [String.toList_ofList]⟩
    rw [← String.toList_inj, same]
    simp

theorem read_own_tag_error (t : UidTag) {rest : String} {c : Ulid.ReadError}
    (h : Ulid.read rest.toList = .error c) : read t (t.text ++ "_" ++ rest) = .error (.ulid c) := by
  rw [read, if_neg (not_isEmpty_parts _ _), splitFirst_parts (underscore_not_mem_tag t)]
  simp [h]

theorem read_of_spells (h : Spells t cs s) : read t s = .ok ⟨.ofNat 128 (number cs)⟩ := by
  rw [h.text]
  apply read_own_tag
  rw [String.toList_ofList, Ulid.read_of_spells h.digits]

theorem read_of_fails (h : Fails t s e) : read t s = .error e := by
  cases h with
  | empty => rfl
  | missingSeparator some_ none_ =>
    rw [read, if_neg (mt String.isEmpty_iff.mp some_), Text.splitFirst_eq_none_iff.mpr none_]
  | wrongTag free other =>
    rw [read, if_neg (not_isEmpty_parts _ _), splitFirst_parts free]
    simp [other]
  | @length rest size =>
    rw [← rest.ofList_toList, ← Ulid.byteLength_eq] at size
    exact read_own_tag_error t (Ulid.read_of_length size)
  | @character rest c size hc not_digit =>
    rw [← rest.ofList_toList, ← Ulid.byteLength_eq] at size
    exact read_own_tag_error t (Ulid.read_of_character size hc not_digit)

/-- Every text is that of a uid or has something wrong with it. -/
theorem spells_or_fails (t : UidTag) (s : String) :
    (∃ cs, Spells t cs s) ∨ ∃ e, Fails t s e := by
  by_cases some_ : s = ""
  · subst some_
    exact .inr ⟨_, .empty⟩
  by_cases separated : '_' ∈ s.toList
  · obtain ⟨tag, rest, rfl, free⟩ := exists_parts separated
    by_cases own : tag = t.text
    · subst own
      by_cases size : (Text.bytes rest).length = 26
      · by_cases digits : ∀ c ∈ rest.toList, IsDigit c
        · have length : Ulid.byteLength rest.toList = 26 := by
            rw [Ulid.byteLength_eq, rest.ofList_toList, size]
          refine .inl ⟨rest.toList, ?_, Ulid.spells_iff.mpr ⟨length, digits⟩⟩
          rw [rest.ofList_toList]
        · obtain ⟨c, hc, not_digit⟩ := by simpa using digits
          exact .inr ⟨_, .character size hc not_digit⟩
      · exact .inr ⟨_, .length size⟩
    · exact .inr ⟨_, .wrongTag free own⟩
  · exact .inr ⟨_, .missingSeparator some_ separated⟩

theorem read_eq_error_iff : read t s = .error e ↔ Fails t s e := by
  refine ⟨fun refused => ?_, read_of_fails⟩
  rcases spells_or_fails t s with ⟨cs, spelled⟩ | ⟨e', fails⟩
  · rw [read_of_spells spelled] at refused
    cases refused
  · rw [read_of_fails fails] at refused
    cases refused
    exact fails

theorem exists_read_iff : (∃ u, read t s = .ok u) ↔ ∃ cs, Spells t cs s := by
  constructor
  · rintro ⟨u, read_⟩
    refine (spells_or_fails t s).resolve_right fun ⟨e, fails⟩ => ?_
    rw [read_of_fails fails] at read_
    cases read_
  · rintro ⟨cs, spelled⟩
    exact ⟨_, read_of_spells spelled⟩

theorem text_number (h : Ulid.Spells cs) :
    text (⟨.ofNat 128 (number cs)⟩ : Uid t) = t.text ++ "_" ++ .ofList (canonical cs) := by
  rw [text, Ulid.text_number h]

/-- Two texts stand for one uid exactly if their digits are alike. -/
theorem read_eq_read_iff {s s' : String} {cs cs' : List Char} (h : Spells t cs s)
    (h' : Spells t cs' s') : read t s = read t s' ↔ Alike cs cs' := by
  rw [read_of_spells h, read_of_spells h', Except.ok.injEq, mk.injEq, ← Ulid.text_inj,
    Ulid.text_number h.digits, Ulid.text_number h'.digits, Ulid.canonical_eq_iff]

theorem isPlain_of_mem_text (u : Uid t) : ∀ c ∈ u.text.toList, Json.IsPlain c :=
  u.forall_mem_text (fun t => by cases t <;> decide) (by decide) (by decide)

/-- The JSON form is the text between quotes. -/
theorem text_toJson (u : Uid t) : u.toJson.text = "\"" ++ u.text ++ "\"" := by
  have plain := Json.quoted_of_isPlain u.isPlain_of_mem_text
  rwa [String.ofList_toList] at plain

theorem read_text_toJson (u : Uid t) : Json.read u.toJson.text = some u.toJson := by
  have plain := Json.read_quoted_of_isPlain u.isPlain_of_mem_text
  rwa [String.ofList_toList, ← text_toJson] at plain

theorem ofJson_eq_some_iff {j : Json} {u : Uid t} :
    ofJson j = some u ↔ ∃ s, j = .string s ∧ read t s = .ok u := by
  have kept (x : Except ReadError (Uid t)) : x.toOption = some u ↔ x = .ok u := by
    cases x <;> simp [Except.toOption]
  simp only [ofJson, Option.bind_eq_some_iff, kept]
  cases j <;> simp [Json.asString]

/-- **Which texts are uids, and which uids they are.** A text is read if it is the tag, an
underscore and 26 digits in either case, and stands for the number of the digits modulo `2 ^ 128`;
its canonical form has the digits in upper case and the first one modulo eight, so that two texts
stand for one uid if they differ in case and in the two highest bits only. Every uid is read from
its text, which is also its JSON form, and JSON accepts what is accepted as text. What is refused
has something wrong with it that the error names. -/
theorem reads_spelled (t : UidTag) :
    (∀ s, (∃ u, read t s = .ok u) ↔ ∃ cs, Spells t cs s) ∧
      (∀ s cs, Spells t cs s → ∃ u, read t s = .ok u ∧
        u.ulid.toNat = number cs % 2 ^ 128 ∧
        u.text = t.text ++ "_" ++ .ofList (canonical cs)) ∧
      (∀ u : Uid t, read t u.text = .ok u) ∧
      (∀ s s' cs cs', Spells t cs s → Spells t cs' s' →
        (read t s = read t s' ↔ Alike cs cs')) ∧
      (∀ u : Uid t, u.toJson.text = "\"" ++ u.text ++ "\"" ∧
        Json.read u.toJson.text = some u.toJson) ∧
      (∀ j (u : Uid t), ofJson j = some u ↔ ∃ s, j = .string s ∧ read t s = .ok u) ∧
      (∀ s e, read t s = .error e ↔ Fails t s e) := by
  refine ⟨fun s => exists_read_iff, fun s cs spelled => ?_, read_text,
    fun s s' cs cs' => read_eq_read_iff, fun u => ⟨u.text_toJson, u.read_text_toJson⟩,
    fun j u => ofJson_eq_some_iff, fun s e => read_eq_error_iff⟩
  exact ⟨_, read_of_spells spelled, BitVec.toNat_ofNat _ _, text_number spelled.digits⟩

end Uid

end PoolControl
