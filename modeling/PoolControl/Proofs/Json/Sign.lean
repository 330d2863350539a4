import PoolControl.Proofs.Json.Codec
import Mathlib.Data.Option.Basic

/-! Reading and the sign of zero.

Data is equal up to the sign of zero, which `unsigned` drops. A reader of typed values is blind to
the sign if it reads the same without it, as all readers of typed values are. Free-form data keeps
its signs (`settle_unsigned`), so a record with such data is read without the signs in it:
`Follows` says so, with what dropping them means for the values read. -/
namespace PoolControl.Json

variable {α β γ : Type} {read : Json → Option α} {unsign : α → α}

/-! ### Parts -/

theorem unsignedItems_eq (items : List Json) : unsignedItems items = items.map unsigned := by
  induction items with
  | nil => rfl
  | cons j rest ih => rw [unsignedItems, ih, List.map_cons]

theorem unsignedMembers_eq (members : List (String × Json)) :
    unsignedMembers members = members.map fun m => (m.1, m.2.unsigned) := by
  induction members with
  | nil => rfl
  | cons m rest ih => rw [unsignedMembers, ih, List.map_cons]

theorem occurrences_unsignedMembers (n : String) (members : List (String × Json)) :
    occurrences n (unsignedMembers members) = occurrences n members := by
  rw [unsignedMembers_eq, occurrences, List.countP_map]
  rfl

theorem member?_unsignedMembers (n : String) (members : List (String × Json)) :
    member? n (unsignedMembers members) = (member? n members).map unsigned := by
  induction members with
  | nil => rfl
  | cons m rest ih =>
    rw [unsignedMembers, member?, member?, ih]
    cases member? n rest <;> by_cases h : m.1 = n <;> simp [h]

theorem filter_unsignedMembers (p : String → Bool) (members : List (String × Json)) :
    (unsignedMembers members).filter (fun m => p m.1) =
      unsignedMembers (members.filter fun m => p m.1) := by
  rw [unsignedMembers_eq, unsignedMembers_eq, List.filter_map]
  rfl

theorem put_unsignedMembers (n : String) (j : Json) (members : List (String × Json)) :
    Bindings.put n j.unsigned (unsignedMembers members) =
      unsignedMembers (Bindings.put n j members) := by
  induction members with
  | nil => rfl
  | cons m rest ih =>
    rw [unsignedMembers, Bindings.put, Bindings.put]
    cases compare n m.1 <;> simp [unsignedMembers, ih]

/-- Only a null is null without its signs. -/
theorem unsigned_eq_null {j : Json} : j.unsigned = .null ↔ j = .null := by
  cases j <;> simp [unsigned]

/-! ### Free-form data -/

mutual

/-- **Data is settled with its signs.** -/
theorem settle_unsigned : ∀ j : Json, j.unsigned.settle = j.settle.map unsigned
  | .null | .bool _ | .int _ | .float _ | .string _ | .unreadable => rfl
  | .array items => by
    rw [unsigned, settle, settle, settleItems_unsigned items]
    cases settleItems items <;> rfl
  | .object members => by
    have parts := settleMembers_unsigned members []
    rw [unsignedMembers] at parts
    rw [unsigned, settle, settle, parts]
    cases settleMembers [] members <;> rfl

theorem settleItems_unsigned : ∀ items : List Json,
    settleItems (unsignedItems items) = (settleItems items).map unsignedItems
  | [] => rfl
  | j :: rest => by
    rw [unsignedItems, settleItems, settleItems, settle_unsigned j, settleItems_unsigned rest]
    cases j.settle <;> cases settleItems rest <;> rfl

theorem settleMembers_unsigned : ∀ members sofar : List (String × Json),
    settleMembers (unsignedMembers sofar) (unsignedMembers members) =
      (settleMembers sofar members).map unsignedMembers
  | [], _ => rfl
  | (n, j) :: rest, sofar => by
    rw [unsignedMembers, settleMembers, settleMembers, settle_unsigned j]
    cases j.settle with
    | none => rfl
    | some j' =>
      have last := settleMembers_unsigned rest (Bindings.put n j' sofar)
      rwa [← put_unsignedMembers] at last

end

/-! ### Readers -/

/-- Without the signs in the data, the value is read without its signs. -/
def Follows (read : Json → Option α) (unsign : α → α) : Prop :=
  ∀ j, read j.unsigned = (read j).map unsign

/-- The signs in the data make no difference to the value that is read. -/
def Blind (read : Json → Option α) : Prop := ∀ j, read j.unsigned = read j

theorem Blind.follows (h : Blind read) : Follows read id := by
  intro j
  rw [h, Option.map_id, id]

theorem follows_settle : Follows settle unsigned := settle_unsigned

@[simp] theorem blind_string : Blind asString := by
  intro j
  cases j <;> rfl

@[simp] theorem blind_bool : Blind asBool := by
  intro j
  cases j <;> rfl

theorem blind_int (low high : Int) : Blind (asInt low high) := by
  intro j
  cases j <;> rfl

@[simp] theorem blind_int64 : Blind asInt64 := blind_int _ _

@[simp] theorem blind_nat32 : Blind asNat32 := fun j => congrArg (Option.map _) (blind_int _ _ j)

@[simp] theorem blind_nat64 : Blind asNat64 := fun j => congrArg (Option.map _) (blind_int _ _ j)

theorem blind_name : Blind asName := by
  intro j
  match j with
  | .object [(_, v)] | .object ((_, v) :: _ :: _) => cases v <;> rfl
  | .object [] => rfl
  | .null | .bool _ | .int _ | .float _ | .string _ | .unreadable | .array _ => rfl

@[simp] theorem blind_choice [Choice α] : Blind (Choice.ofJson : Json → Option α) := by
  intro j
  rw [Choice.ofJson, blind_name]
  rfl

theorem readAll_unsigned (h : Blind read) (items : List Json) :
    readAll read (unsignedItems items) = readAll read items := by
  induction items with
  | nil => rfl
  | cons j rest ih => rw [unsignedItems, readAll, readAll, h, ih]

@[simp] theorem blind_list (h : Blind read) : Blind (asList read) := by
  intro j
  cases j with
  | array items => exact readAll_unsigned h items
  | _ => rfl

section

variable [Ord β] [Std.TransOrd β] [Std.LawfulEqOrd β] {key : String → Option β}

theorem readBindings_unsigned (h : Blind read) (m : OrderedMap β α)
    (members : List (String × Json)) :
    readBindings key read m (unsignedMembers members) = readBindings key read m members := by
  induction members generalizing m with
  | nil => rfl
  | cons b rest ih =>
    rw [unsignedMembers, readBindings, readBindings, h]
    split
    · apply ih
    · rfl

@[simp] theorem blind_map (h : Blind read) : Blind (asMap key read) := by
  intro j
  cases j with
  | object members => exact readBindings_unsigned h ∅ members
  | _ => rfl

end

@[simp] theorem blind_dictionary (h : Blind read) : Blind (asDictionary read) := blind_map h

/-! ### Records -/

/-- The fields without their signs. -/
def Fields.unsigned (f : Fields) : Fields :=
  { f with values := f.values.map (·.map Json.unsigned) }

theorem fields_unsigned (names : List String) (j : Json) :
    j.unsigned.fields names = (j.fields names).map Fields.unsigned := by
  cases j with
  | object members =>
    simp only [Json.unsigned, fields, occurrences_unsignedMembers, member?_unsignedMembers]
    split <;> simp [Fields.unsigned]
  | array items =>
    simp only [Json.unsigned, fields, unsignedItems_eq, List.length_map]
    split <;> simp [Fields.unsigned]
  | _ => rfl

namespace Fields

variable (f : Fields) (i : Nat)

theorem at?_unsigned : f.unsigned.at? i = (f.at? i).map Json.unsigned := by
  rw [at?, at?, unsigned, List.getElem?_map]
  cases f.values[i]? <;> rfl

theorem required_unsigned (h : Follows read unsign) :
    f.unsigned.required i read = (f.required i read).map unsign := by
  rw [required, required, at?_unsigned]
  cases f.at? i with
  | none => rfl
  | some j => exact h j

theorem optional_unsigned (h : Follows read unsign) :
    f.unsigned.optional i read = (f.optional i read).map (·.map unsign) := by
  have at_ := at?_unsigned f i
  cases value : f.at? i with
  | none =>
    rw [value] at at_
    rw [optional, optional, value, at_]
    cases positional : f.positional <;> simp [unsigned, positional]
  | some j =>
    rw [value] at at_
    by_cases null : j = .null
    · subst null
      rw [optional, optional, value, at_]
      rfl
    · rw [optional_of_some value null, optional_of_some at_ (mt unsigned_eq_null.mp null), h]
      simp only [Option.map_map]
      rfl

theorem withDefault_unsigned (h : Follows read unsign) {x : α} (hx : unsign x = x) :
    f.unsigned.withDefault i x read = (f.withDefault i x read).map unsign := by
  rw [withDefault, withDefault, at?_unsigned]
  cases f.at? i with
  | none => simp [hx]
  | some j => exact h j

@[simp] theorem required_blind (h : Blind read) :
    f.unsigned.required i read = f.required i read := by
  rw [required_unsigned f i h.follows, Option.map_id, id]

@[simp] theorem optional_blind (h : Blind read) :
    f.unsigned.optional i read = f.optional i read := by
  rw [optional_unsigned f i h.follows]
  simp

@[simp] theorem withDefault_blind (h : Blind read) (x : α) :
    f.unsigned.withDefault i x read = f.withDefault i x read := by
  rw [withDefault_unsigned f i h.follows rfl, Option.map_id, id]

end Fields

/-- **A record follows if its fields do.** -/
theorem follows_record {names : List String} {build : Fields → Option α}
    (built : ∀ j, read j = (j.fields names).bind build)
    (h : ∀ f, build f.unsigned = (build f).map unsign) : Follows read unsign := by
  intro j
  rw [built, built, fields_unsigned, Option.bind_map, Option.map_bind]
  exact congrArg _ (funext h)

theorem blind_record {names : List String} {build : Fields → Option α}
    (built : ∀ j, read j = (j.fields names).bind build) (h : ∀ f, build f.unsigned = build f) :
    Blind read := by
  have follows : Follows read id := follows_record built fun f => by rw [h, Option.map_id, id]
  intro j
  rw [follows, Option.map_id, id]

end PoolControl.Json
