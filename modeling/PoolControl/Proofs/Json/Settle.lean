import PoolControl.Json.Basic

/-! Free-form data.

`settle` brings free-form data into the form in which it is stored, unless a part of it is
unreadable. Settled data is settled again to itself (`settle_settle`), since a settled object has
its members by increasing name already. Whether there is a settled form at all, `Readable`, is a
matter of the parts. -/
namespace PoolControl.Json

/-- No part of the value is unreadable. -/
def Readable (j : Json) : Prop := j.settle.isSome = true

/-! ### Parts -/

theorem settleItems_isSome {items : List Json} :
    (settleItems items).isSome = true ↔ ∀ j ∈ items, j.Readable := by
  induction items with
  | nil => simp [settleItems]
  | cons j rest ih =>
    rw [List.forall_mem_cons, ← ih, settleItems, Readable]
    cases j.settle <;> cases settleItems rest <;> simp

theorem settleMembers_isSome {sofar members : List (String × Json)} :
    (settleMembers sofar members).isSome = true ↔ ∀ m ∈ members, m.2.Readable := by
  induction members generalizing sofar with
  | nil => simp [settleMembers]
  | cons m rest ih =>
    simp only [List.forall_mem_cons, settleMembers, Readable]
    cases m.2.settle with
    | none => simp
    | some j => simpa [Readable] using ih

@[simp] theorem readable_null : null.Readable := rfl

@[simp] theorem readable_bool (b : Bool) : (bool b).Readable := rfl

@[simp] theorem readable_int (n : Int) : (int n).Readable := rfl

@[simp] theorem readable_string (s : String) : (string s).Readable := rfl

@[simp] theorem readable_array {items : List Json} :
    (array items).Readable ↔ ∀ j ∈ items, j.Readable := by
  rw [Readable, settle, Option.isSome_map, settleItems_isSome]

@[simp] theorem readable_object {members : List (String × Json)} :
    (object members).Readable ↔ ∀ m ∈ members, m.2.Readable := by
  rw [Readable, settle, Option.isSome_map, settleMembers_isSome]

/-! ### Settled data -/

/-- The data is stored as it is. -/
def Settled (j : Json) : Prop := j.settle = some j

theorem Settled.readable {j : Json} (h : j.Settled) : j.Readable := by
  rw [Readable, h]
  rfl

/-- Settled members by increasing name are put at the end one by one. -/
theorem settleMembers_of_settled (sofar : List (String × Json)) {members : List (String × Json)}
    (increasing : Bindings.Increasing (sofar ++ members)) (settled : ∀ m ∈ members, m.2.Settled) :
    settleMembers sofar members = some (sofar ++ members) := by
  induction members generalizing sofar with
  | nil => simp [settleMembers]
  | cons m rest ih =>
    obtain ⟨settledHead, settledTail⟩ := List.forall_mem_cons.mp settled
    have last : Bindings.put m.1 m.2 sofar = sofar ++ [m] :=
      Bindings.put_of_gt fun b hb =>
        (List.pairwise_append.mp increasing).2.2 b hb m List.mem_cons_self
    have split : sofar ++ m :: rest = (sofar ++ [m]) ++ rest := by simp
    have tail := ih (sofar ++ [m]) (by rwa [← split]) settledTail
    rw [settleMembers, settledHead]
    dsimp only
    rw [last, tail, split]

mutual

theorem settle_settle : ∀ {j j' : Json}, j.settle = some j' → j'.Settled
  | .null, _, h | .bool _, _, h | .int _, _, h | .float _, _, h | .string _, _, h => by
    obtain rfl := Option.some.inj h
    rfl
  | .unreadable, _, h => nomatch h
  | .array items, _, h => by
    obtain ⟨items', settled, rfl⟩ := Option.map_eq_some_iff.mp h
    rw [Settled, settle, settleItems_settle settled, Option.map_some]
  | .object members, _, h => by
    obtain ⟨members', settled, rfl⟩ := Option.map_eq_some_iff.mp h
    have empty : Bindings.Increasing ([] : List (String × Json)) := List.Pairwise.nil
    obtain ⟨increasing, parts⟩ := settleMembers_settle empty (by simp) settled
    rw [Settled, settle, settleMembers_of_settled [] increasing parts,
      Option.map_some, List.nil_append]

theorem settleItems_settle : ∀ {items items' : List Json},
    settleItems items = some items' → settleItems items' = some items'
  | [], _, h => by
    obtain rfl := Option.some.inj h
    rfl
  | j :: rest, _, h => by
    rw [settleItems] at h
    split at h
    · rename_i j' rest' hj hrest
      obtain rfl := Option.some.inj h
      rw [settleItems, settle_settle hj, settleItems_settle hrest]
    · cases h

theorem settleMembers_settle : ∀ {members sofar members' : List (String × Json)},
    Bindings.Increasing sofar → (∀ m ∈ sofar, m.2.Settled) →
      settleMembers sofar members = some members' →
        Bindings.Increasing members' ∧ ∀ m ∈ members', m.2.Settled
  | [], _, _, increasing, settled, h => by
    obtain rfl := Option.some.inj h
    exact ⟨increasing, settled⟩
  | (n, j) :: rest, sofar, _, increasing, settled, h => by
    rw [settleMembers] at h
    split at h
    · rename_i j' hj
      apply settleMembers_settle (Bindings.increasing_put n j' increasing) _ h
      intro m hm
      rcases Bindings.mem_put hm with rfl | old
      · exact settle_settle hj
      · exact settled m old
    · cases h

end

end PoolControl.Json
