/-! Finite maps in key order.

A map is the list of its bindings with strictly increasing keys, so a map has one
representation: `ext_get?` says two maps that answer every lookup alike are the same
map, and walking a map visits its keys in order, so what is picked from two maps in the
same way under every key is the same list (`filterMap_congr`). `get?_insert` and
`get?_erase` give the meaning of the two updates, `total_insert` what an update makes of a
sum over the values, and `mem_iff` the meaning of membership. A set is a map to `Unit`. -/
namespace PoolControl

universe u v

/-! ### Bindings in key order -/

namespace Bindings

variable {α : Type u} {β : Type v} [Ord α]

/-- The bindings with `k` bound to `x`, in place of any earlier binding of `k`. -/
def put (k : α) (x : β) : List (α × β) → List (α × β)
  | [] => [(k, x)]
  | (k', x') :: rest =>
    match compare k k' with
    | .lt => (k, x) :: (k', x') :: rest
    | .eq => (k, x) :: rest
    | .gt => (k', x') :: put k x rest

/-- The bindings without that of `k`. -/
def drop (k : α) : List (α × β) → List (α × β)
  | [] => []
  | (k', x') :: rest => if compare k k' == .eq then rest else (k', x') :: drop k rest

/-- What `k` is bound to. -/
def find? (k : α) : List (α × β) → Option β
  | [] => none
  | (k', x') :: rest => if compare k k' == .eq then some x' else find? k rest

/-- Keys increase strictly along the list. -/
def Increasing (l : List (α × β)) : Prop :=
  l.Pairwise (fun a b => compare a.1 b.1 = .lt)

theorem mem_put {k : α} {x : β} {l : List (α × β)} {b : α × β} (h : b ∈ put k x l) :
    b = (k, x) ∨ b ∈ l := by
  induction l with
  | nil => simpa [put] using h
  | cons a rest ih =>
    simp only [put] at h
    split at h <;> grind

theorem mem_drop {k : α} {l : List (α × β)} {b : α × β} (h : b ∈ drop k l) : b ∈ l := by
  induction l with
  | nil => exact h
  | cons a rest ih =>
    simp only [drop] at h
    split at h <;> grind

theorem increasing_drop (k : α) {l : List (α × β)} (h : Increasing l) :
    Increasing (drop k l) := by
  induction l with
  | nil => exact h
  | cons a rest ih =>
    obtain ⟨head, tail⟩ := List.pairwise_cons.mp h
    simp only [drop]
    split
    · exact tail
    · exact List.pairwise_cons.mpr ⟨fun b hb => head b (mem_drop hb), ih tail⟩

/-- A key below every key of the list is not bound. -/
theorem find?_eq_none_of_lt {k : α} {l : List (α × β)}
    (h : ∀ b ∈ l, compare k b.1 = .lt) : find? k l = none := by
  induction l with
  | nil => rfl
  | cons a rest ih =>
    simp only [find?, h a List.mem_cons_self]
    exact ih (fun b hb => h b (List.mem_cons_of_mem _ hb))

variable [Std.TransOrd α] [Std.LawfulEqOrd α]

theorem increasing_put (k : α) (x : β) {l : List (α × β)} (h : Increasing l) :
    Increasing (put k x l) := by
  induction l with
  | nil => simp [put, Increasing]
  | cons a rest ih =>
    obtain ⟨head, tail⟩ := List.pairwise_cons.mp h
    simp only [put]
    split
    · rename_i hlt
      refine List.pairwise_cons.mpr ⟨?_, h⟩
      intro b hb
      rcases List.mem_cons.mp hb with rfl | hb
      · exact hlt
      · exact Std.TransCmp.lt_trans hlt (head b hb)
    · rename_i heq
      refine List.pairwise_cons.mpr ⟨?_, tail⟩
      intro b hb
      rw [Std.LawfulEqCmp.eq_of_compare heq]
      exact head b hb
    · rename_i hgt
      refine List.pairwise_cons.mpr ⟨?_, ih tail⟩
      intro b hb
      rcases mem_put hb with rfl | hb
      · exact Std.OrientedCmp.lt_of_gt hgt
      · exact head b hb

omit [Std.LawfulEqOrd α] in
/-- A key above every key of the list goes to the end. -/
theorem put_of_gt {k : α} {x : β} {l : List (α × β)} (h : ∀ b ∈ l, compare b.1 k = .lt) :
    put k x l = l ++ [(k, x)] := by
  induction l with
  | nil => rfl
  | cons a rest ih =>
    have above : compare k a.1 = .gt := Std.OrientedCmp.gt_of_lt (h a List.mem_cons_self)
    simp only [put, above, List.cons_append]
    rw [ih fun b hb => h b (List.mem_cons_of_mem _ hb)]

theorem find?_put (k k' : α) (x : β) (l : List (α × β)) :
    find? k' (put k x l) = if compare k' k == .eq then some x else find? k' l := by
  induction l with
  | nil => rfl
  | cons a rest ih =>
    simp only [put]
    split
    · rfl
    · rename_i heq
      rw [Std.LawfulEqCmp.eq_of_compare heq]
      by_cases h : compare k' a.1 == .eq <;> simp [find?, h]
    · rename_i hgt
      by_cases ha : compare k' a.1 == .eq
      · have : k' = a.1 := by simpa using ha
        subst this
        simp [find?, Std.OrientedCmp.lt_of_gt hgt]
      · simp [find?, ha, ih]

omit [Std.TransOrd α] in
theorem find?_drop (k k' : α) {l : List (α × β)} (h : Increasing l) :
    find? k' (drop k l) = if compare k' k == .eq then none else find? k' l := by
  induction l with
  | nil => simp [drop, find?]
  | cons a rest ih =>
    obtain ⟨head, tail⟩ := List.pairwise_cons.mp h
    simp only [drop]
    by_cases hk : compare k a.1 == .eq
    · have : k = a.1 := by simpa using hk
      subst this
      rw [if_pos hk]
      by_cases hk' : compare k' a.1 == .eq
      · have : k' = a.1 := by simpa using hk'
        subst this
        simpa [hk'] using find?_eq_none_of_lt head
      · simp [find?, hk']
    · rw [if_neg hk]
      by_cases ha : compare k' a.1 == .eq
      · have : k' = a.1 := by simpa using ha
        subst this
        have : ¬ compare a.1 k = .eq := fun e => hk (by
          rw [Std.LawfulEqCmp.eq_of_compare e]; simp)
        simp [find?, this]
      · simp [find?, ha, ih tail]

omit [Std.TransOrd α] in
theorem find?_eq_some_iff {k : α} {x : β} {l : List (α × β)} (h : Increasing l) :
    find? k l = some x ↔ (k, x) ∈ l := by
  induction l with
  | nil => simp [find?]
  | cons a rest ih =>
    obtain ⟨head, tail⟩ := List.pairwise_cons.mp h
    by_cases ha : compare k a.1 == .eq
    · have : k = a.1 := by simpa using ha
      subst this
      have : ∀ y, (a.1, y) ∉ rest := fun y hy => by simpa using head _ hy
      simp only [find?, ha, if_true, Option.some.injEq, List.mem_cons, this, or_false]
      constructor
      · rintro rfl; rfl
      · intro e; rw [← e]
    · have : (k, x) ≠ a := fun e => ha (by rw [← e]; simp)
      simp [find?, ha, ih tail, this]

/-- Lists with increasing keys that answer every lookup alike are equal. -/
theorem ext_find? {l m : List (α × β)} (hl : Increasing l) (hm : Increasing m)
    (h : ∀ k, find? k l = find? k m) : l = m := by
  induction l generalizing m with
  | nil =>
    cases m with
    | nil => rfl
    | cons b rest => simpa [find?] using h b.1
  | cons a rest ih =>
    cases m with
    | nil => simpa [find?] using h a.1
    | cons b rest' =>
      obtain ⟨ha, tl⟩ := List.pairwise_cons.mp hl
      obtain ⟨hb, tm⟩ := List.pairwise_cons.mp hm
      have memb : (a.1, a.2) ∈ b :: rest' :=
        (find?_eq_some_iff hm).mp ((h a.1).symm.trans (by simp [find?]))
      have mema : (b.1, b.2) ∈ a :: rest :=
        (find?_eq_some_iff hl).mp ((h b.1).trans (by simp [find?]))
      have hab : a = b := by
        rcases List.mem_cons.mp memb with e | e
        · exact e
        · rcases List.mem_cons.mp mema with e' | e'
          · exact e'.symm
          · have h1 := hb _ e
            have h2 := ha _ e'
            exact absurd (Std.TransCmp.lt_trans h1 h2) (by simp)
      subst hab
      congr 1
      refine ih tl tm fun k => ?_
      by_cases hk : compare k a.1 == .eq
      · have : k = a.1 := by simpa using hk
        subst this
        rw [find?_eq_none_of_lt ha, find?_eq_none_of_lt hb]
      · simpa [find?, hk] using h k

/-- The sum of a measure over what is bound. -/
def total (f : β → Nat) : List (α × β) → Nat
  | [] => 0
  | b :: rest => f b.2 + total f rest

omit [Std.LawfulEqOrd α] in
/-- What is put counts in place of what was bound. -/
theorem total_put (f : β → Nat) (k : α) (x : β) {l : List (α × β)} (h : Increasing l) :
    total f (put k x l) + (find? k l).elim 0 f = total f l + f x := by
  induction l with
  | nil => simp [put, find?, total]
  | cons a rest ih =>
    obtain ⟨head, tail⟩ := List.pairwise_cons.mp h
    simp only [put]
    split
    · rename_i hlt
      have below : ∀ b ∈ a :: rest, compare k b.1 = .lt := by
        intro b hb
        rcases List.mem_cons.mp hb with rfl | hb
        · exact hlt
        · exact Std.TransCmp.lt_trans hlt (head b hb)
      rw [find?_eq_none_of_lt below]
      simp only [total, Option.elim_none]
      omega
    · rename_i heq
      simp only [find?, heq, BEq.rfl, if_true, Option.elim_some, total]
      omega
    · rename_i hgt
      have later := ih tail
      simp only [find?, hgt, total] at later ⊢
      simp only [show (Ordering.gt == Ordering.eq) = false from rfl, Bool.false_eq_true, if_false]
      omega

/-! ### Selecting bindings -/

section

universe w

variable {γ : Type w}

omit [Ord α] [Std.TransOrd α] [Std.LawfulEqOrd α]

/-- What a partial function makes of the bindings, each under its key. -/
def select (f : α × β → Option γ) (l : List (α × β)) : List (α × γ) :=
  l.filterMap fun b => (f b).map (b.1, ·)

theorem mem_select {f : α × β → Option γ} {l : List (α × β)} {k : α} {y : γ} :
    (k, y) ∈ select f l ↔ ∃ x, (k, x) ∈ l ∧ f (k, x) = some y := by
  simp only [select, List.mem_filterMap, Option.map_eq_some_iff, Prod.mk.injEq]
  constructor
  · rintro ⟨⟨_, x⟩, hb, _, hf, rfl, rfl⟩
    exact ⟨x, hb, hf⟩
  · rintro ⟨x, hb, hf⟩
    exact ⟨(k, x), hb, y, hf, rfl, rfl⟩

theorem map_select (f : α × β → Option γ) (l : List (α × β)) :
    (select f l).map (·.2) = l.filterMap f := by
  simp only [select, List.map_filterMap, Option.map_map, Function.comp_def, Option.map_id']

theorem increasing_select [Ord α] (f : α × β → Option γ) {l : List (α × β)} (h : Increasing l) :
    Increasing (select f l) := by
  refine h.filterMap _ fun a b hab y hy z hz => ?_
  obtain ⟨_, _, rfl⟩ := Option.map_eq_some_iff.mp hy
  obtain ⟨_, _, rfl⟩ := Option.map_eq_some_iff.mp hz
  exact hab

end

end Bindings

/-! ### Maps -/

/-- A finite map: its bindings by increasing key. -/
structure OrderedMap (α : Type u) (β : Type v) [Ord α] where
  toList : List (α × β)
  increasing : Bindings.Increasing toList

namespace OrderedMap

variable {α : Type u} {β : Type v} [Ord α]

@[ext] theorem ext {m n : OrderedMap α β} (h : m.toList = n.toList) : m = n := by
  cases m
  cases n
  cases h
  rfl

instance [DecidableEq α] [DecidableEq β] : DecidableEq (OrderedMap α β) := fun m n =>
  decidable_of_iff (m.toList = n.toList) ⟨ext, fun h => h ▸ rfl⟩

/-- The map without bindings. -/
def empty : OrderedMap α β := ⟨[], List.Pairwise.nil⟩

instance : EmptyCollection (OrderedMap α β) := ⟨empty⟩
instance : Inhabited (OrderedMap α β) := ⟨empty⟩

def get? (m : OrderedMap α β) (k : α) : Option β := Bindings.find? k m.toList

def contains (m : OrderedMap α β) (k : α) : Bool := (m.get? k).isSome

def getD (m : OrderedMap α β) (k : α) (x : β) : β := (m.get? k).getD x

def keys (m : OrderedMap α β) : List α := m.toList.map (·.1)

def values (m : OrderedMap α β) : List β := m.toList.map (·.2)

def size (m : OrderedMap α β) : Nat := m.toList.length

def isEmpty (m : OrderedMap α β) : Bool := m.toList.isEmpty

instance : Membership α (OrderedMap α β) := ⟨fun m k => m.contains k = true⟩

instance (k : α) (m : OrderedMap α β) : Decidable (k ∈ m) :=
  inferInstanceAs (Decidable (m.contains k = true))

@[simp] theorem get?_empty (k : α) : (∅ : OrderedMap α β).get? k = none := rfl

theorem isEmpty_iff {m : OrderedMap α β} : m.isEmpty = true ↔ m = ∅ := by
  constructor
  · intro h
    exact ext (List.isEmpty_iff.mp h)
  · rintro rfl
    rfl

theorem mem_iff {m : OrderedMap α β} {k : α} : k ∈ m ↔ (m.get? k).isSome = true := Iff.rfl

variable [Std.TransOrd α] [Std.LawfulEqOrd α]

/-- Binds `k` to `x`, in place of any earlier binding. -/
def insert (m : OrderedMap α β) (k : α) (x : β) : OrderedMap α β :=
  ⟨Bindings.put k x m.toList, Bindings.increasing_put k x m.increasing⟩

/-- Removes the binding of `k`, if there is one. -/
def erase (m : OrderedMap α β) (k : α) : OrderedMap α β :=
  ⟨Bindings.drop k m.toList, Bindings.increasing_drop k m.increasing⟩

/-- Binds what a list binds. Of two bindings of a key the later counts. -/
def ofList (l : List (α × β)) : OrderedMap α β :=
  l.foldl (fun m b => m.insert b.1 b.2) ∅

/-- The map with the bindings of `n` put over those of `m`. -/
def merge (m n : OrderedMap α β) : OrderedMap α β :=
  n.toList.foldl (fun m b => m.insert b.1 b.2) m

variable [DecidableEq α]

theorem get?_insert (m : OrderedMap α β) (k k' : α) (x : β) :
    (m.insert k x).get? k' = if k' = k then some x else m.get? k' := by
  show Bindings.find? k' (Bindings.put k x m.toList) = _
  rw [Bindings.find?_put]
  by_cases h : k' = k
  · simp [h]
  · simp [h, get?]

omit [Std.TransOrd α] in
theorem get?_erase (m : OrderedMap α β) (k k' : α) :
    (m.erase k).get? k' = if k' = k then none else m.get? k' := by
  show Bindings.find? k' (Bindings.drop k m.toList) = _
  rw [Bindings.find?_drop k k' m.increasing]
  by_cases h : k' = k
  · simp [h]
  · simp [h, get?]

omit [DecidableEq α] [Std.TransOrd α] in
theorem get?_eq_some_iff {m : OrderedMap α β} {k : α} {x : β} :
    m.get? k = some x ↔ (k, x) ∈ m.toList :=
  Bindings.find?_eq_some_iff m.increasing

omit [DecidableEq α] in
/-- **Lookups determine a map.** -/
theorem ext_get? {m n : OrderedMap α β} (h : ∀ k, m.get? k = n.get? k) : m = n :=
  ext (Bindings.ext_find? m.increasing n.increasing h)

omit [DecidableEq α] [Std.TransOrd α] in
theorem mem_values {m : OrderedMap α β} {x : β} : x ∈ m.values ↔ ∃ k, m.get? k = some x := by
  simp only [values, List.mem_map, get?_eq_some_iff]
  constructor
  · rintro ⟨⟨k, _⟩, hb, rfl⟩
    exact ⟨k, hb⟩
  · rintro ⟨k, hb⟩
    exact ⟨(k, x), hb, rfl⟩

/-- The sum of a measure over the values. -/
def total (f : β → Nat) (m : OrderedMap α β) : Nat := Bindings.total f m.toList

omit [DecidableEq α] in
theorem total_insert (f : β → Nat) (m : OrderedMap α β) (k : α) (x : β) :
    (m.insert k x).total f + (m.get? k).elim 0 f = m.total f + f x :=
  Bindings.total_put f k x m.increasing

omit [DecidableEq α] in
/-- **Selections that agree under every key are the same list**, as both are in key order. -/
theorem filterMap_congr {γ δ : Type v} {m : OrderedMap α β} {n : OrderedMap α γ}
    {f : α × β → Option δ} {g : α × γ → Option δ}
    (h : ∀ k, ((m.get? k).bind fun x => f (k, x)) = (n.get? k).bind fun x => g (k, x)) :
    m.toList.filterMap f = n.toList.filterMap g := by
  have hm := Bindings.increasing_select f m.increasing
  have hn := Bindings.increasing_select g n.increasing
  rw [← Bindings.map_select, ← Bindings.map_select]
  congr 1
  refine Bindings.ext_find? hm hn fun k => Option.ext fun y => ?_
  rw [Bindings.find?_eq_some_iff hm, Bindings.find?_eq_some_iff hn, Bindings.mem_select,
    Bindings.mem_select]
  simp only [← get?_eq_some_iff, ← Option.bind_eq_some_iff]
  rw [h k]

end OrderedMap

/-! ### Sets -/

/-- A finite set, kept in order. -/
abbrev OrderedSet (α : Type u) [Ord α] := OrderedMap α Unit

namespace OrderedSet

variable {α : Type u} [Ord α]

/-- The elements in order. -/
def elements (s : OrderedSet α) : List α := OrderedMap.keys s

variable [Std.TransOrd α] [Std.LawfulEqOrd α]

def add (s : OrderedSet α) (k : α) : OrderedSet α := OrderedMap.insert s k ()

def single (k : α) : OrderedSet α := add ∅ k

def ofElements (l : List α) : OrderedSet α := l.foldl add ∅

def union (s t : OrderedSet α) : OrderedSet α := OrderedMap.merge s t

theorem mem_add [DecidableEq α] {s : OrderedSet α} {k k' : α} :
    k' ∈ add s k ↔ k' = k ∨ k' ∈ s := by
  simp only [add, OrderedMap.mem_iff, OrderedMap.get?_insert]
  by_cases h : k' = k <;> simp [h]

omit [Std.TransOrd α] [Std.LawfulEqOrd α] in
theorem not_mem_empty {k : α} : k ∉ (∅ : OrderedSet α) := Bool.false_ne_true

theorem mem_single [DecidableEq α] {k k' : α} : k' ∈ single k ↔ k' = k :=
  mem_add.trans (or_iff_left not_mem_empty)

theorem single_inj [DecidableEq α] {k k' : α} (h : single k = single k') : k = k' :=
  mem_single.mp (h ▸ mem_single.mpr rfl)

theorem single_ne_empty [DecidableEq α] {k : α} : single k ≠ ∅ :=
  fun h => not_mem_empty (h ▸ mem_single.mpr rfl : k ∈ _)

omit [Std.TransOrd α] in
theorem mem_erase [DecidableEq α] {s : OrderedSet α} {k k' : α} :
    k' ∈ OrderedMap.erase s k ↔ k' ≠ k ∧ k' ∈ s := by
  simp only [OrderedMap.mem_iff, OrderedMap.get?_erase]
  by_cases h : k' = k <;> simp [h]

omit [Std.TransOrd α] [Std.LawfulEqOrd α] in
theorem mem_iff_get? {s : OrderedSet α} {k : α} : k ∈ s ↔ OrderedMap.get? s k = some () := by
  rw [OrderedMap.mem_iff]
  cases OrderedMap.get? s k <;> simp

/-- Sets with the same elements are equal. -/
theorem ext_mem {s t : OrderedSet α} (h : ∀ k, k ∈ s ↔ k ∈ t) : s = t :=
  OrderedMap.ext_get? fun k => Option.ext fun _ => by
    rw [← mem_iff_get?, ← mem_iff_get?]
    exact h k

omit [Std.TransOrd α] in
theorem mem_elements {s : OrderedSet α} {k : α} : k ∈ elements s ↔ k ∈ s := by
  rw [mem_iff_get?, OrderedMap.get?_eq_some_iff]
  simp only [elements, OrderedMap.keys, List.mem_map]
  constructor
  · rintro ⟨⟨_, _⟩, hb, rfl⟩
    exact hb
  · intro hb
    exact ⟨_, hb, rfl⟩

omit [Std.TransOrd α] [Std.LawfulEqOrd α] in
theorem increasing_elements (s : OrderedSet α) :
    (elements s).Pairwise fun a b => compare a b = .lt :=
  List.pairwise_map.mpr s.increasing

omit [Std.LawfulEqOrd α] in
theorem nodup_elements (s : OrderedSet α) : (elements s).Nodup :=
  (increasing_elements s).imp fun {a b} lt same => by
    subst same
    exact absurd (lt.symm.trans Std.ReflCmp.compare_self) (by decide)

/-- What is there already need not be added. -/
theorem add_of_mem [DecidableEq α] {s : OrderedSet α} {k : α} (h : k ∈ s) : add s k = s :=
  ext_mem fun _ => mem_add.trans (or_iff_right_of_imp fun same => same ▸ h)

theorem mem_foldl_add [DecidableEq α] {s : OrderedSet α} {l : List α} {k : α} :
    k ∈ l.foldl add s ↔ k ∈ l ∨ k ∈ s := by
  induction l generalizing s with
  | nil => exact (or_iff_right List.not_mem_nil).symm
  | cons k' l ih => rw [List.foldl_cons, ih, mem_add, List.mem_cons, or_left_comm, or_assoc]

theorem mem_ofElements [DecidableEq α] {l : List α} {k : α} : k ∈ ofElements l ↔ k ∈ l :=
  mem_foldl_add.trans (or_iff_left not_mem_empty)

/-- A union adds one element after the other. -/
theorem union_eq (s t : OrderedSet α) : union s t = (elements t).foldl add s := by
  rw [elements, OrderedMap.keys, List.foldl_map]
  rfl

theorem mem_union [DecidableEq α] {s t : OrderedSet α} {k : α} :
    k ∈ union s t ↔ k ∈ s ∨ k ∈ t := by
  rw [union_eq, mem_foldl_add, mem_elements, or_comm]

end OrderedSet

end PoolControl
