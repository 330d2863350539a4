import PoolControl.Resource.Basic

/-! Watch events.

Every change of an object is told as an event: it was created, updated from an old to a
new state, deleted, or is told again as it is. `Event.object` is the newest state an event
knows. In JSON an event is its object with a member `type` added, an update an object with
the members `old` and `new`; the array of the tag and the parts is also read. -/
namespace PoolControl

inductive EventKind
  | created
  | updated
  | deleted
  | generic
deriving DecidableEq, Inhabited

instance : Choice EventKind where
  all := [.created, .updated, .deleted, .generic]
  name
    | .created => "created"
    | .updated => "updated"
    | .deleted => "deleted"
    | .generic => "generic"
  ofName?
    | "created" => some .created
    | "updated" => some .updated
    | "deleted" => some .deleted
    | "generic" => some .generic
    | _ => none
  ofName?_name x := by cases x <;> rfl
  name_of_ofName? h := by grind

inductive Event (K : Type)
  | created (object : K)
  | updated (old new : K)
  | deleted (object : K)
  | generic (object : K)
deriving DecidableEq

namespace Event

variable {K : Type}

def kind : Event K → EventKind
  | .created _ => .created
  | .updated _ _ => .updated
  | .deleted _ => .deleted
  | .generic _ => .generic

/-- The newest state of the object. -/
def object : Event K → K
  | .created x => x
  | .updated _ x => x
  | .deleted x => x
  | .generic x => x

/-- The state before an update. -/
def old? : Event K → Option K
  | .updated x _ => some x
  | _ => none

variable [Resource K]

def key (e : Event K) : Key := Resource.key e.object

/-- A value with the tag put in front of its members. -/
def tagged (kind : EventKind) (j : Json) : Json :=
  .object (("type", Choice.toJson kind) :: j.members)

def toJson : Event K → Json
  | .created x => tagged .created (Resource.toJson x)
  | .updated x y =>
    tagged .updated (.object [("old", Resource.toJson x), ("new", Resource.toJson y)])
  | .deleted x => tagged .deleted (Resource.toJson x)
  | .generic x => tagged .generic (Resource.toJson x)

/-- Reads what follows the tag. -/
def ofParts (kind : EventKind) (j : Json) : Option (Event K) :=
  match kind with
  | .created => (Resource.ofJson j).map .created
  | .updated => do
    let f ← j.fields ["old", "new"]
    return .updated (← f.required 0 Resource.ofJson) (← f.required 1 Resource.ofJson)
  | .deleted => (Resource.ofJson j).map .deleted
  | .generic => (Resource.ofJson j).map .generic

/-- The tag is a name, and nothing in an event may be unreadable. -/
def ofJson (j : Json) : Option (Event K) :=
  if j.settle.isNone then none
  else match j with
    | .object members => do
      if Json.occurrences "type" members = 1 then
        let kind ← (← (← Json.member? "type" members).asString) |> Choice.ofName?
        ofParts kind (.object (members.filter (·.1 ≠ "type")))
      else none
    | .array (.string tag :: rest) => (Choice.ofName? tag).bind fun k => ofParts k (.array rest)
    | _ => none

end Event

end PoolControl
