import PoolControl.Json.Record
import PoolControl.Proofs.Json.Settle
import PoolControl.Resource.Choice
import Mathlib.Data.List.Basic
import Mathlib.Data.List.Nodup

/-! Values that come back from JSON.

A reader takes more than its writer writes: records as arrays, unknown members, defaults left
out, numbers that are too large are refused. So a value need not come back unless it was read
from something. `Faithful` says that it does then: what is written of it is readable and is read
as the same value.

The laws go along the structure of the data. Lists and maps are faithful if their parts are
(`faithful_list`, `faithful_map`). A record is faithful if each of its fields is read back from
where it is written (`Kept`), whatever it was read from: by name or by position, or not at all
where it has a default. -/
namespace PoolControl.Json

variable {α β γ : Type} {write : α → Json} {read : Json → Option α}

/-- The value is read from something. -/
def Reads (read : Json → Option α) (x : α) : Prop := ∃ j, read j = some x

structure Faithful (write : α → Json) (read : Json → Option α) : Prop where
  returns : ∀ {x}, Reads read x → read (write x) = some x
  readable : ∀ {x}, Reads read x → (write x).Readable
  /-- Nothing but a null is written as one. -/
  present : ∀ {j x}, read j = some x → j ≠ .null → write x ≠ .null

/-! ### Scalars -/

theorem faithful_string : Faithful .string asString where
  returns _ := rfl
  readable _ := readable_string _
  present _ _ := nofun

theorem faithful_bool : Faithful .bool asBool where
  returns _ := rfl
  readable _ := readable_bool _
  present _ _ := nofun

theorem asInt_eq_some_iff {low high n : Int} {j : Json} :
    asInt low high j = some n ↔ j = .int n ∧ low ≤ n ∧ n < high := by
  cases j with
  | int m =>
    simp only [asInt, Option.ite_none_right_eq_some, Option.some.injEq, Json.int.injEq]
    constructor
    · rintro ⟨h, rfl⟩
      exact ⟨rfl, h⟩
    · rintro ⟨rfl, h⟩
      exact ⟨h, rfl⟩
  | _ => simp [asInt]

theorem faithful_int64 : Faithful .int asInt64 where
  returns := by
    rintro n ⟨j, h⟩
    obtain ⟨rfl, bounds⟩ := asInt_eq_some_iff.mp h
    exact asInt_eq_some_iff.mpr ⟨rfl, bounds⟩
  readable _ := readable_int _
  present _ _ := nofun

/-- A natural number below a bound. -/
theorem faithful_nat (high : Int) :
    Faithful ofNat fun j => (asInt 0 high j).map Int.toNat where
  returns := by
    rintro n ⟨j, h⟩
    obtain ⟨m, hm, rfl⟩ := Option.map_eq_some_iff.mp h
    obtain ⟨rfl, nonneg, below⟩ := asInt_eq_some_iff.mp hm
    have same : (m.toNat : Int) = m := Int.toNat_of_nonneg nonneg
    refine Option.map_eq_some_iff.mpr ⟨m, asInt_eq_some_iff.mpr ⟨?_, nonneg, below⟩, rfl⟩
    rw [ofNat, same]
  readable _ := readable_int _
  present _ _ := nofun

theorem faithful_nat32 : Faithful ofNat asNat32 := faithful_nat _

theorem faithful_nat64 : Faithful ofNat asNat64 := faithful_nat _

theorem faithful_choice [Choice α] : Faithful (Choice.toJson : α → Json) Choice.ofJson where
  returns _ := Choice.ofName?_name _
  readable _ := readable_string _
  present _ _ := nofun

/-- Free-form data is stored settled. -/
theorem faithful_settle : Faithful id settle where
  returns := fun ⟨_, h⟩ => settle_settle h
  readable := fun ⟨_, h⟩ => (settle_settle h).readable
  present {j x} h some_ none_ := by
    obtain rfl : x = .null := none_
    cases j <;> simp_all [settle]

/-! ### Collections -/

theorem reads_of_readAll {items : List Json} {xs : List α} (h : readAll read items = some xs) :
    ∀ x ∈ xs, Reads read x := by
  induction items generalizing xs with
  | nil =>
    cases h
    exact nofun
  | cons j rest ih =>
    rw [readAll] at h
    split at h
    · rename_i y ys hy hys
      cases h
      exact List.forall_mem_cons.mpr ⟨⟨j, hy⟩, ih hys⟩
    · cases h

theorem readAll_map (h : Faithful write read) {xs : List α} (hx : ∀ x ∈ xs, Reads read x) :
    readAll read (xs.map write) = some xs := by
  induction xs with
  | nil => rfl
  | cons x rest ih =>
    obtain ⟨head, tail⟩ := List.forall_mem_cons.mp hx
    rw [List.map_cons, readAll, h.returns head, ih tail]

theorem reads_of_asList {xs : List α} (h : Reads (asList read) xs) : ∀ x ∈ xs, Reads read x := by
  obtain ⟨j, hj⟩ := h
  cases j with
  | array items => exact reads_of_readAll hj
  | _ => cases hj

theorem faithful_list (h : Faithful write read) : Faithful (ofList write) (asList read) where
  returns hx := readAll_map h (reads_of_asList hx)
  readable hx := by
    rw [ofList, readable_array, List.forall_mem_map]
    exact fun x mem => h.readable (reads_of_asList hx x mem)
  present _ _ := nofun

section

variable [Ord α] [Std.TransOrd α] [Std.LawfulEqOrd α] {name : α → String}
  {key : String → Option α} {writeValue : β → Json} {readValue : Json → Option β}

/-- What is read of a map is read value by value, or was there before. -/
theorem reads_of_readBindings {members : List (String × Json)} {m m' : OrderedMap α β}
    (h : readBindings key readValue m members = some m')
    (before : ∀ b ∈ m.toList, Reads readValue b.2) : ∀ b ∈ m'.toList, Reads readValue b.2 := by
  induction members generalizing m with
  | nil =>
    cases h
    exact before
  | cons b rest ih =>
    rw [readBindings] at h
    split at h
    · rename_i k x _ hx
      apply ih h
      intro b' hb'
      rcases Bindings.mem_put hb' with rfl | old
      · exact ⟨_, hx⟩
      · exact before b' old
    · cases h

/-- Bindings in order are put at the end one by one. -/
theorem readBindings_map (h : Faithful writeValue readValue) (named : ∀ k, key (name k) = some k)
    (sofar : List (α × β)) {rest : List (α × β)} (increasing : Bindings.Increasing (sofar ++ rest))
    (before : Bindings.Increasing sofar) (hx : ∀ b ∈ rest, Reads readValue b.2) :
    readBindings key readValue ⟨sofar, before⟩ (rest.map fun b => (name b.1, writeValue b.2)) =
      some ⟨sofar ++ rest, increasing⟩ := by
  induction rest generalizing sofar with
  | nil => simp [readBindings]
  | cons b rest ih =>
    obtain ⟨head, tail⟩ := List.forall_mem_cons.mp hx
    have last : Bindings.put b.1 b.2 sofar = sofar ++ [b] :=
      Bindings.put_of_gt fun b' hb' =>
        (List.pairwise_append.mp increasing).2.2 b' hb' b List.mem_cons_self
    have split : sofar ++ b :: rest = (sofar ++ [b]) ++ rest := by simp
    simp only [List.map_cons, readBindings, named, h.returns head, OrderedMap.insert, last]
    simp only [split] at increasing ⊢
    exact ih (sofar ++ [b]) increasing _ tail

theorem reads_of_asMap {m : OrderedMap α β} (h : Reads (asMap key readValue) m) :
    ∀ b ∈ m.toList, Reads readValue b.2 := by
  obtain ⟨j, hj⟩ := h
  cases j with
  | object members => exact reads_of_readBindings hj fun _ mem => nomatch mem
  | _ => cases hj

theorem faithful_map (h : Faithful writeValue readValue) (named : ∀ k, key (name k) = some k) :
    Faithful (ofMap name writeValue) (asMap key readValue) where
  returns {m} hx := readBindings_map h named [] m.increasing _ (reads_of_asMap hx)
  readable hx := by
    rw [ofMap, readable_object, List.forall_mem_map]
    exact fun b mem => h.readable (reads_of_asMap hx b mem)
  present _ _ := nofun

end

theorem faithful_dictionary {write : β → Json} {read : Json → Option β} (h : Faithful write read) :
    Faithful (ofDictionary write) (asDictionary read) :=
  faithful_map h fun _ => rfl

/-! ### Fields of a record -/

theorem member?_eq_none {n : String} {members : List (String × Json)}
    (absent : ∀ m ∈ members, m.1 ≠ n) : member? n members = none := by
  induction members with
  | nil => rfl
  | cons m rest ih =>
    obtain ⟨head, tail⟩ := List.forall_mem_cons.mp absent
    rw [member?, ih tail, if_neg head, Option.none_or]

/-- The members that are written of a record. -/
def written (members : List (String × Option Json)) : List (String × Json) :=
  members.filterMap fun m => m.2.map (m.1, ·)

theorem written_cons (n : String) (v : Option Json) (rest : List (String × Option Json)) :
    written ((n, v) :: rest) = (v.map (n, ·)).toList ++ written rest := by
  cases v <;> rfl

theorem mem_written {members : List (String × Option Json)} {n : String} {j : Json} :
    (n, j) ∈ written members ↔ (n, some j) ∈ members := by
  simp only [written, List.mem_filterMap, Option.map_eq_some_iff, Prod.mk.injEq]
  constructor
  · rintro ⟨⟨_, _⟩, mem, _, rfl, rfl, rfl⟩
    exact mem
  · exact fun mem => ⟨_, mem, j, rfl, rfl, rfl⟩

theorem occurrences_written (n : String) (members : List (String × Option Json)) :
    occurrences n (written members) ≤ (members.map (·.1)).count n := by
  induction members with
  | nil => simp [written, occurrences]
  | cons m rest ih =>
    obtain ⟨n', v⟩ := m
    rw [written_cons, occurrences, List.countP_append, List.map_cons, List.count_cons]
    rw [occurrences] at ih
    cases v <;> simp <;> omega

/-- A member of a record is found under its name. -/
theorem member?_written {members : List (String × Option Json)} {n : String} {v : Option Json}
    (distinct : (members.map (·.1)).Nodup) (mem : (n, v) ∈ members) :
    member? n (written members) = v := by
  induction members with
  | nil => cases mem
  | cons m rest ih =>
    obtain ⟨n', v'⟩ := m
    obtain ⟨fresh, others⟩ := List.nodup_cons.mp distinct
    rw [written_cons]
    rcases List.mem_cons.mp mem with same | later
    · obtain ⟨rfl, rfl⟩ := Prod.mk.inj same
      have absent : member? n (written rest) = none := by
        apply member?_eq_none
        rintro ⟨n', j⟩ hj rfl
        exact fresh (List.mem_map.mpr ⟨_, mem_written.mp hj, rfl⟩)
      cases v <;> simp [member?, absent]
    · have other : n' ≠ n := by
        rintro rfl
        exact fresh (List.mem_map.mpr ⟨_, later, rfl⟩)
      cases v' <;> simp [member?, ih others later, other]

/-- **The fields of a record are found as they were written.** -/
theorem fields_record (members : List (String × Option Json))
    (distinct : (members.map (·.1)).Nodup) :
    (record members).fields (members.map (·.1)) = some ⟨members.map (·.2), false⟩ := by
  have once : (members.map (·.1)).all fun n => occurrences n (written members) ≤ 1 := by
    rw [List.all_eq_true]
    intro n _
    have count := List.nodup_iff_count_le_one.mp distinct n
    exact decide_eq_true (Nat.le_trans (occurrences_written n members) count)
  have found : (members.map (·.1)).map (fun n => member? n (written members)) =
      members.map (·.2) := by
    rw [List.map_map]
    exact List.map_congr_left fun m mem => member?_written distinct mem
  have object : record members = .object (written members) := rfl
  rw [object, fields, if_pos once, found]

/-- A field with the value `x` is read back from where it is written. -/
structure Kept (i : Nat) (read : Fields → Option γ) (value : Option Json) (x : γ) : Prop where
  returns : ∀ vs : List (Option Json), (vs[i]?).join = value → read ⟨vs, false⟩ = some x
  readable : ∀ j, value = some j → j.Readable

variable {f : Fields} {i : Nat} {x d : α} {o : Option α}

theorem kept_required (h : Faithful write read) (hx : f.required i read = some x) :
    Kept i (·.required i read) (some (write x)) x := by
  have reads : Reads read x := by
    obtain ⟨j, -, hj⟩ := Option.bind_eq_some_iff.mp hx
    exact ⟨j, hj⟩
  constructor
  · intro vs at_
    rw [Fields.required, Fields.at?, at_]
    exact h.returns reads
  · rintro _ ⟨⟩
    exact h.readable reads

theorem reads_of_withDefault (hd : Reads read d) (hx : f.withDefault i d read = some x) :
    Reads read x := by
  unfold Fields.withDefault at hx
  split at hx
  · cases hx
    exact hd
  · exact ⟨_, hx⟩

/-- A field that is written even if it has its default. -/
theorem kept_withDefault (h : Faithful write read) (hd : Reads read d)
    (hx : f.withDefault i d read = some x) :
    Kept i (·.withDefault i d read) (some (write x)) x := by
  have reads := reads_of_withDefault hd hx
  constructor
  · intro vs at_
    rw [Fields.withDefault, Fields.at?, at_]
    exact h.returns reads
  · rintro _ ⟨⟩
    exact h.readable reads

/-- A collection that is left out when it is empty, as it is by default. -/
theorem kept_unlessEmpty (h : Faithful write read) (hd : Reads read d)
    (hx : f.withDefault i d read = some x) {isEmpty : Bool} (empty : isEmpty = true → x = d) :
    Kept i (·.withDefault i d read) (unlessEmpty isEmpty (write x)) x := by
  cases isEmpty with
  | false => exact kept_withDefault h hd hx
  | true =>
    constructor
    · intro vs at_
      rw [Fields.withDefault, Fields.at?, at_, empty rfl]
      rfl
    · exact nofun

/-- What an optional field holds was read from something, but not from a null. -/
theorem reads_of_optional (hx : f.optional i read = some (some x)) :
    ∃ j, j ≠ .null ∧ read j = some x := by
  unfold Fields.optional at hx
  split at hx
  · split at hx <;> cases hx
  · cases hx
  · rename_i j other _
    obtain ⟨y, hy, same⟩ := Option.map_eq_some_iff.mp hx
    obtain rfl := Option.some.inj same
    exact ⟨j, other, hy⟩

theorem optional_of_some {j : Json} (at_ : f.at? i = some j) (other : j ≠ .null) :
    f.optional i read = (read j).map some := by
  rw [Fields.optional, at_]
  cases j with
  | null => exact absurd rfl other
  | _ => rfl

theorem kept_optional (h : Faithful write read) (hx : f.optional i read = some o) :
    Kept i (·.optional i read) (o.map write) o := by
  cases o with
  | none =>
    constructor
    · intro vs at_
      rw [Fields.optional, Fields.at?, at_]
      rfl
    · exact nofun
  | some x =>
    obtain ⟨j, other, hj⟩ := reads_of_optional hx
    constructor
    · intro vs at_
      have present : Fields.at? ⟨vs, false⟩ i = some (write x) := at_
      rw [optional_of_some present (h.present hj other), h.returns ⟨j, hj⟩, Option.map_some]
    · rintro _ ⟨⟩
      exact h.readable ⟨j, hj⟩

/-- Free-form data is written as it is stored. -/
theorem kept_settled {o : Option Json} (hx : f.optional i settle = some o) :
    Kept i (·.optional i settle) o o := by
  simpa only [Option.map_id, id_eq] using kept_optional faithful_settle hx

/-- An optional field that is written as null if it is absent. -/
theorem kept_nullable (h : Faithful write read) (hx : f.optional i read = some o) :
    Kept i (·.optional i read) (some (o.elim .null write)) o := by
  cases o with
  | none =>
    constructor
    · intro vs at_
      rw [Fields.optional, Fields.at?, at_]
      rfl
    · rintro _ ⟨⟩
      exact readable_null
  | some x => exact kept_optional h hx

/-! ### Records -/

/-- **A record is faithful if its fields are kept.** -/
theorem faithful_record {members : α → List (String × Option Json)} {names : List String}
    {build : Fields → Option α} (written : ∀ x, write x = record (members x))
    (named : ∀ x, (members x).map (·.1) = names) (distinct : names.Nodup)
    (built : ∀ j, read j = (j.fields names).bind build)
    (back : ∀ f x, build f = some x → build ⟨(members x).map (·.2), false⟩ = some x ∧
      ∀ m ∈ members x, ∀ j, m.2 = some j → j.Readable) : Faithful write read where
  returns := by
    rintro x ⟨j, h⟩
    rw [built] at h
    obtain ⟨f, -, hf⟩ := Option.bind_eq_some_iff.mp h
    have fields := fields_record (members x) (by rw [named]; exact distinct)
    rw [built, written, ← named x, fields]
    exact (back f x hf).1
  readable := by
    rintro x ⟨j, h⟩
    rw [built] at h
    obtain ⟨f, -, hf⟩ := Option.bind_eq_some_iff.mp h
    rw [written, record, readable_object]
    rintro ⟨n, j⟩ mem
    exact (back f x hf).2 _ (mem_written.mp mem) j rfl
  present {j x} _ _ := by
    rw [written]
    exact nofun

/-- A record without optional members. -/
theorem faithful_object {members : α → List (String × Json)} {names : List String}
    {build : Fields → Option α} (written : ∀ x, write x = .object (members x))
    (named : ∀ x, (members x).map (·.1) = names) (distinct : names.Nodup)
    (built : ∀ j, read j = (j.fields names).bind build)
    (back : ∀ f x, build f = some x →
      build ⟨(members x).map fun m => some m.2, false⟩ = some x ∧
        ∀ m ∈ members x, m.2.Readable) : Faithful write read := by
  have written_some (ms : List (String × Json)) :
      record (ms.map fun m => (m.1, some m.2)) = .object ms := by
    simp [record, List.filterMap_map]
  apply faithful_record (fun x => (written x).trans (written_some (members x)).symm) _ distinct
    built
  · intro f x hf
    obtain ⟨returns, readable⟩ := back f x hf
    constructor
    · rw [List.map_map]
      exact returns
    · intro m mem j hj
      obtain ⟨m', mem', rfl⟩ := List.mem_map.mp mem
      obtain rfl := Option.some.inj hj
      exact readable m' mem'
  · intro x
    rw [List.map_map]
    exact named x

end PoolControl.Json
