import PoolControl.Routing.Wiring

/-! The parts of an object that predicates look at.

A predicate names a part by a pointer into the written form of an object. The pointer stands for
a field if it selects something in every object, and equal things, as data, exactly in objects
whose fields are equal (`Selects`). Then a missing part never makes an update pass, and the parts
of two objects differ if and only if the fields do (`Selects.partsDiffer_iff`).

`keeps_by_fields` says that all pointers of the watches stand for fields, and which updates pass
for it. -/
namespace PoolControl

namespace Predicate

/-! ### Pointers -/

mutual

/-- The pointers that occur in a predicate. -/
def paths : Predicate → List String
  | .fieldChanged path => [path]
  | .not p => paths p
  | .all ps => pathsOfAll ps
  | .any ps => pathsOfAll ps
  | _ => []

def pathsOfAll : List Predicate → List String
  | [] => []
  | p :: ps => paths p ++ pathsOfAll ps

end

/-- Whether a path stands for a field: it selects something in every object, and two objects are
equal there, as data, exactly if their fields are equal. -/
structure Selects {K α : Type} [Resource K] (path : String) (field : K → α) : Prop where
  found : ∀ x : K, ((Resource.toJson x).pointer path).isSome = true
  same : ∀ (x y : K) (a b : Json), (Resource.toJson x).pointer path = some a →
    (Resource.toJson y).pointer path = some b → (a.same b = true ↔ field x = field y)

section

variable {K α : Type} [Resource K] {path : String} {field : K → α}

/-- A field is selected if it is written there in a way that tells its values apart. -/
theorem Selects.of_written (write : α → Json)
    (written : ∀ x : K, (Resource.toJson x).pointer path = some (write (field x)))
    (faithful : ∀ u v, (write u).same (write v) = true ↔ u = v) : Selects path field := by
  refine ⟨fun x => by rw [written]; rfl, fun x y a b ha hb => ?_⟩
  obtain rfl := Option.some.inj ((written x).symm.trans ha)
  obtain rfl := Option.some.inj ((written y).symm.trans hb)
  exact faithful (field x) (field y)

/-- Parts that stand for fields differ exactly if the fields do. -/
theorem Selects.partsDiffer_iff (h : Selects path field) (x y : K) :
    partsDiffer path x y = true ↔ field x ≠ field y := by
  obtain ⟨a, ha⟩ := Option.isSome_iff_exists.mp (h.found x)
  obtain ⟨b, hb⟩ := Option.isSome_iff_exists.mp (h.found y)
  rw [partsDiffer, ha, hb, Bool.not_eq_true', Ne, ← h.same x y a b ha hb, Bool.not_eq_true]

end

end Predicate

/-! ### Fields -/

theorem Choice.same_toJson {α : Type} [Choice α] (x y : α) :
    (toJson x).same (toJson y) = true ↔ x = y := by
  simp only [Json.same_iff, toJson, Json.unsigned, Json.string.injEq, name_inj]

theorem Machine.selects_phase :
    Predicate.Selects "/status/phase" fun x : Machine => x.status.phase :=
  .of_written Choice.toJson (fun _ => rfl) Choice.same_toJson

/-- A machine without a node is written with a null, which no name of a node is. -/
theorem Machine.selects_node :
    Predicate.Selects "/status/node" fun x : Machine => x.status.node := by
  refine .of_written (·.elim .null .string) (fun x => ?_) fun u v => ?_
  · obtain ⟨metadata, spec, phase, node⟩ := x
    cases node <;> rfl
  · rw [Json.same_iff]
    cases u <;> cases v <;> simp [Json.unsigned]

theorem Cluster.selects_phase :
    Predicate.Selects "/status/phase" fun c : Cluster => c.status.phase :=
  .of_written Choice.toJson (fun _ => rfl) Choice.same_toJson

/-! ### Updates that pass -/

namespace Predicate

theorem keeps_machineChanges_updated (cs : Store Cluster) (old new : Machine) :
    machineChanges.keeps cs (.updated old new) = true ↔
      old.status.node ≠ new.status.node ∨ old.status.phase ≠ new.status.phase ∨
        old.metadata.generation ≠ new.metadata.generation := by
  simp only [machineChanges, keeps, keepsAny, Bool.or_false, Bool.or_eq_true, bne_iff_ne,
    Machine.selects_node.partsDiffer_iff, Machine.selects_phase.partsDiffer_iff]
  rfl

theorem keeps_clusterChanges_updated (cs : Store Cluster) (old new : Cluster) :
    clusterChanges.keeps cs (.updated old new) = true ↔ old.status.phase ≠ new.status.phase :=
  Cluster.selects_phase.partsDiffer_iff old new

end Predicate

/-- **The pointers stand for fields.** Whatever two states of a machine are, the update from one to
the other passes if and only if the node, the phase or the generation changed, and that of a
cluster if and only if the phase did. All pointers of the watches, and of what they ask of the
objects that they lead to, select the field they name in every object. -/
theorem keeps_by_fields :
    (∀ (cs : Store Cluster) (old new : Machine),
      Predicate.machineChanges.keeps cs (.updated old new) = true ↔
        old.status.node ≠ new.status.node ∨ old.status.phase ≠ new.status.phase ∨
          old.metadata.generation ≠ new.metadata.generation) ∧
      (∀ (cs : Store Cluster) (old new : Cluster),
        Predicate.clusterChanges.keeps cs (.updated old new) = true ↔
          old.status.phase ≠ new.status.phase) ∧
      (∀ (ignoreRequests : Bool) (backend : String),
        (Wiring.machines backend).predicate.paths = ["/status/node", "/status/phase"] ∧
          (Wiring.clusters ignoreRequests backend).predicate.paths = ["/status/phase"] ∧
          (Wiring.machineSets backend).predicate.paths = [] ∧
          (Wiring.workers ignoreRequests backend).predicate.paths = [] ∧
          (Predicate.hasBackend backend).paths = []) ∧
      (Predicate.Selects "/status/node" fun x : Machine => x.status.node) ∧
      (Predicate.Selects "/status/phase" fun x : Machine => x.status.phase) ∧
      (Predicate.Selects "/status/phase" fun c : Cluster => c.status.phase) := by
  refine ⟨Predicate.keeps_machineChanges_updated, Predicate.keeps_clusterChanges_updated,
    fun ignoreRequests backend => ⟨rfl, rfl, rfl, ?_, rfl⟩, Machine.selects_node,
    Machine.selects_phase, Cluster.selects_phase⟩
  cases ignoreRequests <;> rfl

end PoolControl
