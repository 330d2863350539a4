import PoolControl.Json.Basic

/-! Merge patches.

A patch that is an object changes the members it names: a null removes the member, any
other value patches it in turn. A patch of any other kind replaces the whole value. -/
namespace PoolControl.Json

mutual

/-- The value after the patch. -/
def patch (target : Json) : Json → Json
  | .object changes => .object (patchMembers target.members changes)
  | j => j

/-- The members after the changes. -/
def patchMembers (ms : List (String × Json)) : List (String × Json) → List (String × Json)
  | [] => ms
  | (n, .null) :: rest => patchMembers (ms.filter (·.1 ≠ n)) rest
  | (n, j) :: rest =>
    let old := (member? n ms).getD .null
    patchMembers (Bindings.put n (patch old j) (ms.filter (·.1 ≠ n))) rest

end

end PoolControl.Json
