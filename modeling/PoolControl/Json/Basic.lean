import PoolControl.Json.Double
import PoolControl.OrderedMap

/-! JSON values.

A value keeps the members of an object as they were written, repeated names included, so
that a reader of a record can refuse a repetition and a reader of a map can let the last
one count. `unreadable` stands for a part whose text is well formed but has no value; it
may only occur where it is skipped. `settle` is the value as free-form data: every object
has its members by increasing name, the last of a repeated name counting, and nothing in
it is unreadable. Settled values are equal as data exactly when they are equal up to the
sign of zero, which `unsigned` drops. -/
namespace PoolControl

inductive Json
  | null
  | bool (b : Bool)
  | int (n : Int)
  | float (x : Double)
  | string (s : String)
  | array (items : List Json)
  | object (members : List (String × Json))
  | unreadable
deriving Inhabited

namespace Json

/-! ### Equality -/

mutual

/-- Whether two values are written alike. -/
def beq : Json → Json → Bool
  | .null, .null => true
  | .bool a, .bool b => a == b
  | .int a, .int b => a == b
  | .float a, .float b => a == b
  | .string a, .string b => a == b
  | .array a, .array b => beqItems a b
  | .object a, .object b => beqMembers a b
  | .unreadable, .unreadable => true
  | _, _ => false

def beqItems : List Json → List Json → Bool
  | [], [] => true
  | a :: as, b :: bs => beq a b && beqItems as bs
  | _, _ => false

def beqMembers : List (String × Json) → List (String × Json) → Bool
  | [], [] => true
  | (m, a) :: as, (n, b) :: bs => m == n && beq a b && beqMembers as bs
  | _, _ => false

end

mutual

theorem beq_iff : ∀ a b : Json, beq a b = true ↔ a = b
  | .null, b => by cases b <;> simp [beq]
  | .bool _, b => by cases b <;> simp [beq]
  | .int _, b => by cases b <;> simp [beq]
  | .float _, b => by cases b <;> simp [beq]
  | .string _, b => by cases b <;> simp [beq]
  | .array as, b => by cases b <;> simp [beq, beqItems_iff as]
  | .object as, b => by cases b <;> simp [beq, beqMembers_iff as]
  | .unreadable, b => by cases b <;> simp [beq]

theorem beqItems_iff : ∀ as bs : List Json, beqItems as bs = true ↔ as = bs
  | [], bs => by cases bs <;> simp [beqItems]
  | a :: as, bs => by cases bs <;> simp [beqItems, beq_iff a, beqItems_iff as]

theorem beqMembers_iff : ∀ as bs : List (String × Json), beqMembers as bs = true ↔ as = bs
  | [], bs => by cases bs <;> simp [beqMembers]
  | (m, a) :: as, bs => by
    cases bs with
    | nil => simp [beqMembers]
    | cons b bs => simp [beqMembers, beq_iff a, beqMembers_iff as, Prod.ext_iff, and_assoc]

end

instance : DecidableEq Json := fun a b => decidable_of_iff _ (beq_iff a b)

/-! ### Free-form data -/

mutual

/-- The value with its objects in name order, the last of a repeated name counting. There
is none if a part is unreadable. -/
def settle : Json → Option Json
  | .array items => (settleItems items).map .array
  | .object members => (settleMembers [] members).map .object
  | .unreadable => none
  | j => some j

def settleItems : List Json → Option (List Json)
  | [] => some []
  | j :: rest =>
    match settle j, settleItems rest with
    | some j, some rest => some (j :: rest)
    | _, _ => none

/-- Puts settled members over those so far. -/
def settleMembers (sofar : List (String × Json)) :
    List (String × Json) → Option (List (String × Json))
  | [] => some sofar
  | (n, j) :: rest =>
    match settle j with
    | some j => settleMembers (Bindings.put n j sofar) rest
    | none => none

end

mutual

/-- The value with every negative zero made positive. -/
def unsigned : Json → Json
  | .float x => .float x.unsignedZero
  | .array items => .array (unsignedItems items)
  | .object members => .object (unsignedMembers members)
  | j => j

def unsignedItems : List Json → List Json
  | [] => []
  | j :: rest => unsigned j :: unsignedItems rest

def unsignedMembers : List (String × Json) → List (String × Json)
  | [] => []
  | (n, j) :: rest => (n, unsigned j) :: unsignedMembers rest

end

/-- Whether two values are equal as data. -/
def same (a b : Json) : Bool := a.unsigned = b.unsigned

theorem same_iff {a b : Json} : a.same b = true ↔ a.unsigned = b.unsigned := decide_eq_true_iff

/-! ### Parts -/

/-- The last member of a name. -/
def member? (name : String) : List (String × Json) → Option Json
  | [] => none
  | (n, j) :: rest => (member? name rest).or (if n = name then some j else none)

/-- The members of an object, and none of any other value. -/
def members : Json → List (String × Json)
  | .object ms => ms
  | _ => []

/-- The member of a name, if the value is an object that has one. -/
def get? (j : Json) (name : String) : Option Json := member? name j.members

end Json

end PoolControl
