import PoolControl.Proofs.Json.Sign
import PoolControl.Resource.Basic

/-! What the spec of an object is.

The spec is what is written of an object besides its metadata and its status. It is told apart as
JSON, so the question is whether that comes to the same as telling the typed values apart.
`Lawful` says that it does, and that neither new metadata nor the sign of a zero makes another
spec of it. That holds of each kind: the texts, numbers and lists of a spec are written one to one,
an absent value is left out and so differs from any that is there, free-form data stands as it is,
and a cluster has nothing besides metadata and status. -/
namespace PoolControl

open Json

/-! ### Writers -/

namespace Json

theorem ofNat_injective : Function.Injective ofNat := fun m n h => by
  injection h with h
  exact Int.ofNat.inj h

theorem string_injective : Function.Injective Json.string := fun _ _ h => by
  injection h

theorem ofList_injective {α : Type} {write : α → Json} (h : Function.Injective write) :
    Function.Injective (ofList write) := fun xs ys same => by
  injection same with same
  exact List.map_injective_iff.mpr h same

/-- What is written of a list without signs has no signs. -/
theorem unsigned_ofList {α : Type} {write : α → Json} (h : ∀ x, (write x).unsigned = write x)
    (xs : List α) : (ofList write xs).unsigned = ofList write xs := by
  rw [ofList, unsigned, unsignedItems_eq, List.map_map]
  exact congrArg Json.array (List.map_congr_left fun x _ => h x)

end Json

namespace Pool

theorem toJson_injective : Function.Injective toJson := fun p q h => by
  simp only [toJson, Json.object.injEq, List.cons.injEq, Prod.mk.injEq, Json.string.injEq,
    ofNat_injective.eq_iff, (ofList_injective string_injective).eq_iff, true_and, and_true] at h
  obtain ⟨name, machineType, minimum, maximum, zones⟩ := h
  cases p
  cases q
  simp_all

theorem unsigned_toJson (p : Pool) : p.toJson.unsigned = p.toJson := by
  have zones : (ofList Json.string p.zones).unsigned = ofList Json.string p.zones :=
    unsigned_ofList (fun _ => rfl) p.zones
  rw [toJson, unsigned]
  simp only [unsignedMembers, zones]
  rfl

end Pool

namespace Worker

theorem Spec.toJson_injective : Function.Injective Spec.toJson := fun s t h => by
  have pools := ofList_injective Pool.toJson_injective
  cases s with | mk _ _ _ config
  cases t with | mk _ _ _ config'
  -- A configuration is written as it is, and one that is missing is not written.
  cases config <;> cases config' <;>
    simp_all [Spec.toJson, Json.record, pools.eq_iff]

/-- Dropping the signs of a spec and of what is written of it is the same. -/
theorem unsigned_toJson_spec (w : Worker) :
    w.spec.toJson.unsigned = w.unsigned.spec.toJson := by
  have pools := unsigned_ofList Pool.unsigned_toJson w.spec.pools
  cases config : w.spec.providerConfig <;>
    simp [Spec.toJson, Json.record, Json.unsigned, unsignedMembers, pools, config, Worker.unsigned]

end Worker

theorem MachineSet.Spec.toJson_injective : Function.Injective MachineSet.Spec.toJson :=
  fun s t h => by
    cases s
    cases t
    simp_all [MachineSet.Spec.toJson, ofNat_injective.eq_iff]

namespace Machine

theorem Spec.toJson_injective : Function.Injective Spec.toJson := fun s t h => by
  cases s with | mk _ id
  cases t with | mk _ id'
  cases id <;> cases id' <;> simp_all [Spec.toJson, Json.record]

theorem Spec.unsigned_toJson (s : Spec) : s.toJson.unsigned = s.toJson := by
  cases id : s.providerId <;>
    simp [Spec.toJson, Json.record, Json.unsigned, unsignedMembers, id]

end Machine

/-! ### The form of an object -/

namespace Resource

variable {K : Type} [Resource K]

/-- What is written of an object besides its metadata and its status, without signs. -/
def form (x : K) : List (String × Json) :=
  (toJson x).unsigned.members.filter fun m => m.1 ≠ "metadata" ∧ m.1 ≠ "status"

/-- A kind whose specs are told apart by what is written of them, and whose objects, where they
are equal as data, are so in each part. -/
class Lawful (K : Type) [Resource K] : Prop where
  sameSpec_iff : ∀ x y : K, sameSpec x y = true ↔ form x = form y
  form_withMetadata : ∀ (x : K) (m : Metadata), form (withMetadata x m) = form x
  sameSpec_of_same : ∀ x y : K, same x y = true → sameSpec x y = true
  metadata_of_same : ∀ x y : K, same x y = true → metadata x = metadata y

theorem unsigned_of_same {x y : K} (h : same x y = true) : unsigned x = unsigned y :=
  of_decide_eq_true h

theorem sameSpec_withMetadata [Lawful K] (x y : K) (m : Metadata) :
    sameSpec x (withMetadata y m) = sameSpec x y := by
  rw [Bool.eq_iff_iff, Lawful.sameSpec_iff, Lawful.sameSpec_iff, Lawful.form_withMetadata]

end Resource

open Resource

theorem Worker.form_eq (w : Worker) : form w = [("spec", w.spec.toJson.unsigned)] := rfl

instance : Lawful Worker where
  sameSpec_iff v w := by
    rw [Worker.form_eq, Worker.form_eq, Worker.unsigned_toJson_spec, Worker.unsigned_toJson_spec]
    simp [Worker.Spec.toJson_injective.eq_iff, sameSpec]
  form_withMetadata _ _ := rfl
  sameSpec_of_same _ _ h := decide_eq_true (congrArg Worker.spec (unsigned_of_same h))
  metadata_of_same _ _ h := (congrArg Worker.metadata (unsigned_of_same h) :)

theorem MachineSet.form_eq (x : MachineSet) : form x = [("spec", x.spec.toJson)] := rfl

instance : Lawful MachineSet where
  sameSpec_iff x y := by
    simp [MachineSet.form_eq, MachineSet.Spec.toJson_injective.eq_iff, sameSpec]
  form_withMetadata _ _ := rfl
  sameSpec_of_same _ _ h := decide_eq_true (congrArg MachineSet.spec (unsigned_of_same h))
  metadata_of_same _ _ h := (congrArg MachineSet.metadata (unsigned_of_same h) :)

theorem Machine.form_eq (x : Machine) : form x = [("spec", x.spec.toJson.unsigned)] := rfl

instance : Lawful Machine where
  sameSpec_iff x y := by
    simp [Machine.form_eq, Machine.Spec.unsigned_toJson, Machine.Spec.toJson_injective.eq_iff,
      sameSpec]
  form_withMetadata _ _ := rfl
  sameSpec_of_same _ _ h := decide_eq_true (congrArg Machine.spec (unsigned_of_same h))
  metadata_of_same _ _ h := (congrArg Machine.metadata (unsigned_of_same h) :)

instance : Lawful Cluster where
  sameSpec_iff _ _ := iff_of_true rfl rfl
  form_withMetadata _ _ := rfl
  sameSpec_of_same _ _ _ := rfl
  metadata_of_same _ _ h := (congrArg Cluster.metadata (unsigned_of_same h) :)

end PoolControl
