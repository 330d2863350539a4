import PoolControl.Resource.Event
import PoolControl.Proofs.Identity
import PoolControl.Proofs.Timestamp
import PoolControl.Proofs.Json.Sign

/-! Resources and events come back from JSON.

Uids and timestamps are read from their texts, so the parts of a resource are faithful, and with
them each record that is made of them. None of the readers but those of free-form data look at the
sign of a zero. An event is its object with the tag among the members: no resource has a member of
that name, so the object is found again when the tag is taken out.

`resources_comeBack`: whatever is read as a resource or an event is read again from what is
written of it, what is written is written again, and no two values are written alike. -/
namespace PoolControl

open Json

/-! ### Parts of resources -/

theorem Uid.faithful {t : UidTag} : Faithful (Uid.toJson (t := t)) Uid.ofJson where
  returns {u} _ := by
    show ((read t u.text).toOption : Option (Uid t)) = some u
    rw [read_text]
    rfl
  readable _ := readable_string _
  present _ _ := nofun

@[simp] theorem Uid.blind {t : UidTag} : Blind (Uid.ofJson (t := t)) := by
  intro j
  rw [Uid.ofJson, blind_string]
  rfl

theorem Timestamp.faithful : Faithful Timestamp.toJson Timestamp.ofJson where
  returns := by
    rintro t ⟨j, h⟩
    obtain ⟨s, -, hs⟩ := Option.bind_eq_some_iff.mp h
    have returns := read_text (valid_of_read hs)
    simpa only [ofJson, toJson, asString, Option.bind_some] using returns
  readable _ := readable_string _
  present _ _ := nofun

@[simp] theorem Timestamp.blind : Blind Timestamp.ofJson := by
  intro j
  rw [Timestamp.ofJson, blind_string]
  rfl

/-- Collections are empty by default. -/
theorem reads_empty {α : Type} {read : Json → Option α} : Reads (asDictionary read) ∅ :=
  ⟨.object [], rfl⟩

theorem reads_nil {α : Type} {read : Json → Option α} : Reads (asList read) [] := ⟨.array [], rfl⟩

theorem reads_zero : Reads asInt64 0 := ⟨.int 0, rfl⟩

theorem reads_zero32 : Reads asNat32 0 := ⟨.int 0, rfl⟩

theorem reads_zero64 : Reads asNat64 0 := ⟨.int 0, rfl⟩

theorem reads_choice {α : Type} [Choice α] (x : α) : Reads Choice.ofJson x :=
  ⟨Choice.toJson x, Choice.ofName?_name x⟩

theorem OwnerReference.faithful : Faithful OwnerReference.toJson OwnerReference.ofJson := by
  refine faithful_record (fun _ => rfl) (fun _ => rfl) (by decide) (fun _ => rfl) fun f x h => ?_
  simp only [Option.bind_eq_bind, Option.bind_eq_some_iff, Option.pure_def, Option.some.injEq] at h
  obtain ⟨kind, h₁, name, h₂, uid, h₃, controller, h₄, rfl⟩ := h
  have kind := kept_required faithful_string h₁
  have name := kept_required faithful_string h₂
  have uid := kept_optional Uid.faithful h₃
  have controller := kept_withDefault faithful_bool ⟨.bool false, rfl⟩ h₄
  constructor
  · simp [kind.returns, name.returns, uid.returns, controller.returns]
  · simp only [List.forall_mem_cons]
    exact ⟨kind.readable, name.readable, uid.readable, controller.readable, nofun⟩

@[simp] theorem OwnerReference.blind : Blind OwnerReference.ofJson :=
  blind_record (fun _ => rfl) fun f => by simp

theorem Metadata.faithful : Faithful Metadata.toJson Metadata.ofJson := by
  refine faithful_record (fun _ => rfl) (fun _ => rfl) (by decide) (fun _ => rfl) fun f x h => ?_
  simp only [Option.bind_eq_bind, Option.bind_eq_some_iff, Option.pure_def, Option.some.injEq] at h
  obtain ⟨name, h₁, ns, h₂, uid, h₃, generation, h₄, resourceVersion, h₅, labels, h₆, annotations,
    h₇, finalizers, h₈, owners, h₉, created, h₁₀, deleted, h₁₁, rfl⟩ := h
  have texts := faithful_dictionary faithful_string
  have owner := faithful_list OwnerReference.faithful
  have name := kept_required faithful_string h₁
  have ns := kept_required faithful_string h₂
  have uid := kept_required Uid.faithful h₃
  have generation := kept_withDefault faithful_int64 reads_zero h₄
  have resourceVersion := kept_withDefault faithful_nat64 reads_zero64 h₅
  have labels := kept_unlessEmpty texts reads_empty h₆ OrderedMap.isEmpty_iff.mp
  have annotations := kept_unlessEmpty texts reads_empty h₇ OrderedMap.isEmpty_iff.mp
  have names := faithful_list faithful_string
  have finalizers := kept_unlessEmpty names reads_nil h₈ List.isEmpty_iff.mp
  have owners := kept_unlessEmpty owner reads_nil h₉ List.isEmpty_iff.mp
  have created := kept_optional Timestamp.faithful h₁₀
  have deleted := kept_optional Timestamp.faithful h₁₁
  constructor
  · simp [name.returns, ns.returns, uid.returns, generation.returns, resourceVersion.returns,
      labels.returns, annotations.returns, finalizers.returns, owners.returns, created.returns,
      deleted.returns]
  · simp only [List.forall_mem_cons]
    exact ⟨name.readable, ns.readable, uid.readable, generation.readable, resourceVersion.readable,
      labels.readable, annotations.readable, finalizers.readable, owners.readable, created.readable,
      deleted.readable, nofun⟩

@[simp] theorem Metadata.blind : Blind Metadata.ofJson :=
  blind_record (fun _ => rfl) fun f => by simp

/-- The metadata of a new object is read. -/
theorem Metadata.reads_new (ns name : String) (uid : ObjectUid) :
    Reads Metadata.ofJson (.new ns name uid) := by
  have uid_ : Uid.ofJson (.string uid.text) = some uid := by
    simp [Uid.ofJson, asString, Uid.read_text, Except.toOption]
  use .object [("name", .string name), ("namespace", .string ns), ("uid", .string uid.text),
    ("generation", .int 1)]
  simp [ofJson, fields, occurrences, member?, Fields.required, Fields.optional,
    Fields.withDefault, Fields.at?, uid_, asString, asInt64, asInt, Metadata.new]

theorem LastOperation.faithful : Faithful LastOperation.toJson LastOperation.ofJson := by
  refine faithful_object (fun _ => rfl) (fun _ => rfl) (by decide) (fun _ => rfl) fun f x h => ?_
  simp only [Option.bind_eq_bind, Option.bind_eq_some_iff, Option.pure_def, Option.some.injEq] at h
  obtain ⟨kind, h₁, state, h₂, description, h₃, time, h₄, rfl⟩ := h
  have kind := kept_required faithful_choice h₁
  have state := kept_required faithful_choice h₂
  have description := kept_required faithful_string h₃
  have time := kept_required Timestamp.faithful h₄
  constructor
  · simp [kind.returns, state.returns, description.returns, time.returns]
  · simp only [List.forall_mem_cons]
    exact ⟨kind.readable _ rfl, state.readable _ rfl, description.readable _ rfl,
      time.readable _ rfl, nofun⟩

@[simp] theorem LastOperation.blind : Blind LastOperation.ofJson :=
  blind_record (fun _ => rfl) fun f => by simp

theorem LastError.faithful : Faithful LastError.toJson LastError.ofJson := by
  refine faithful_object (fun _ => rfl) (fun _ => rfl) (by decide) (fun _ => rfl) fun f x h => ?_
  simp only [Option.bind_eq_bind, Option.bind_eq_some_iff, Option.pure_def, Option.some.injEq] at h
  obtain ⟨description, h₁, retryable, h₂, time, h₃, rfl⟩ := h
  have description := kept_required faithful_string h₁
  have retryable := kept_required faithful_bool h₂
  have time := kept_required Timestamp.faithful h₃
  constructor
  · simp [description.returns, retryable.returns, time.returns]
  · simp only [List.forall_mem_cons]
    exact ⟨description.readable _ rfl, retryable.readable _ rfl, time.readable _ rfl, nofun⟩

@[simp] theorem LastError.blind : Blind LastError.ofJson :=
  blind_record (fun _ => rfl) fun f => by simp

/-! ### Workers -/

theorem MachineState.faithful : Faithful MachineState.toJson MachineState.ofJson := by
  refine faithful_record (fun _ => rfl) (fun _ => rfl) (by decide) (fun _ => rfl) fun f x h => ?_
  simp only [Option.bind_eq_bind, Option.bind_eq_some_iff, Option.pure_def, Option.some.injEq] at h
  obtain ⟨phase, h₁, node, h₂, rfl⟩ := h
  have phase := kept_required faithful_choice h₁
  have node := kept_optional faithful_string h₂
  constructor
  · simp [phase.returns, node.returns]
  · simp only [List.forall_mem_cons]
    exact ⟨phase.readable, node.readable, nofun⟩

@[simp] theorem MachineState.blind : Blind MachineState.ofJson :=
  blind_record (fun _ => rfl) fun f => by simp

theorem MachineSetState.faithful : Faithful MachineSetState.toJson MachineSetState.ofJson := by
  refine faithful_record (fun _ => rfl) (fun _ => rfl) (by decide) (fun _ => rfl) fun f x h => ?_
  simp only [Option.bind_eq_bind, Option.bind_eq_some_iff, Option.pure_def, Option.some.injEq] at h
  obtain ⟨pool, h₁, replicas, h₂, machines, h₃, rfl⟩ := h
  have pool := kept_optional faithful_string h₁
  have replicas := kept_required faithful_nat32 h₂
  have machines := kept_withDefault (faithful_dictionary MachineState.faithful) reads_empty h₃
  constructor
  · simp [pool.returns, replicas.returns, machines.returns]
  · simp only [List.forall_mem_cons]
    exact ⟨pool.readable, replicas.readable, machines.readable, nofun⟩

@[simp] theorem MachineSetState.blind : Blind MachineSetState.ofJson :=
  blind_record (fun _ => rfl) fun f => by simp

theorem WorkerState.faithful : Faithful WorkerState.toJson WorkerState.ofJson := by
  refine faithful_object (fun _ => rfl) (fun _ => rfl) (by decide) (fun _ => rfl) fun f x h => ?_
  simp only [Option.bind_eq_bind, Option.bind_eq_some_iff, Option.pure_def, Option.some.injEq] at h
  obtain ⟨machineSets, h₁, phaseCounts, h₂, rfl⟩ := h
  have counts := faithful_map faithful_nat32 fun x : MachinePhase => Choice.ofName?_name x
  have machineSets := kept_withDefault (faithful_dictionary MachineSetState.faithful) reads_empty h₁
  have phaseCounts := kept_withDefault counts ⟨.object [], rfl⟩ h₂
  constructor
  · simp [machineSets.returns, phaseCounts.returns]
  · simp only [List.forall_mem_cons]
    exact ⟨machineSets.readable _ rfl, phaseCounts.readable _ rfl, nofun⟩

@[simp] theorem WorkerState.blind : Blind WorkerState.ofJson :=
  blind_record (fun _ => rfl) fun f => by simp

theorem Pool.faithful : Faithful Pool.toJson Pool.ofJson := by
  refine faithful_object (fun _ => rfl) (fun _ => rfl) (by decide) (fun _ => rfl) fun f x h => ?_
  simp only [Option.bind_eq_bind, Option.bind_eq_some_iff, Option.pure_def, Option.some.injEq] at h
  obtain ⟨name, h₁, machineType, h₂, minimum, h₃, maximum, h₄, zones, h₅, rfl⟩ := h
  have name := kept_required faithful_string h₁
  have machineType := kept_required faithful_string h₂
  have minimum := kept_required faithful_nat32 h₃
  have maximum := kept_required faithful_nat32 h₄
  have zones := kept_withDefault (faithful_list faithful_string) reads_nil h₅
  constructor
  · simp [name.returns, machineType.returns, minimum.returns, maximum.returns, zones.returns]
  · simp only [List.forall_mem_cons]
    exact ⟨name.readable _ rfl, machineType.readable _ rfl, minimum.readable _ rfl,
      maximum.readable _ rfl, zones.readable _ rfl, nofun⟩

@[simp] theorem Pool.blind : Blind Pool.ofJson :=
  blind_record (fun _ => rfl) fun f => by simp

theorem Worker.Spec.faithful : Faithful Worker.Spec.toJson Worker.Spec.ofJson := by
  refine faithful_record (fun _ => rfl) (fun _ => rfl) (by decide) (fun _ => rfl) fun f x h => ?_
  simp only [Option.bind_eq_bind, Option.bind_eq_some_iff, Option.pure_def, Option.some.injEq] at h
  obtain ⟨backend, h₁, region, h₂, pools, h₃, providerConfig, h₄, rfl⟩ := h
  have backend := kept_required faithful_string h₁
  have region := kept_required faithful_string h₂
  have pools := kept_withDefault (faithful_list Pool.faithful) reads_nil h₃
  have providerConfig := kept_settled h₄
  constructor
  · simp [backend.returns, region.returns, pools.returns, providerConfig.returns]
  · simp only [List.forall_mem_cons]
    exact ⟨backend.readable, region.readable, pools.readable, providerConfig.readable, nofun⟩

/-- The spec without the signs of its free-form data. -/
def Worker.Spec.unsigned (s : Worker.Spec) : Worker.Spec :=
  { s with providerConfig := s.providerConfig.map Json.unsigned }

theorem Worker.Spec.follows : Follows Worker.Spec.ofJson Worker.Spec.unsigned :=
  follows_record (fun _ => rfl) fun f => by
    simp [Fields.optional_unsigned f 3 follows_settle, Option.bind_map, Option.map_bind,
      Function.comp_def, Worker.Spec.unsigned]

theorem Worker.Status.faithful : Faithful Worker.Status.toJson Worker.Status.ofJson := by
  refine faithful_record (fun _ => rfl) (fun _ => rfl) (by decide) (fun _ => rfl) fun f x h => ?_
  simp only [Option.bind_eq_bind, Option.bind_eq_some_iff, Option.pure_def, Option.some.injEq] at h
  obtain ⟨phase, h₁, lastOperation, h₂, lastError, h₃, observedGeneration, h₄, providerStatus, h₅,
    state, h₆, rfl⟩ := h
  have phase := kept_optional faithful_choice h₁
  have lastOperation := kept_optional LastOperation.faithful h₂
  have lastError := kept_optional LastError.faithful h₃
  have observedGeneration := kept_withDefault faithful_int64 reads_zero h₄
  have providerStatus := kept_settled h₅
  have state := kept_optional WorkerState.faithful h₆
  constructor
  · simp [phase.returns, lastOperation.returns, lastError.returns, observedGeneration.returns,
      providerStatus.returns, state.returns]
  · simp only [List.forall_mem_cons]
    exact ⟨phase.readable, lastOperation.readable, lastError.readable, observedGeneration.readable,
      providerStatus.readable, state.readable, nofun⟩

/-- The status without the signs of its free-form data. -/
def Worker.Status.unsigned (s : Worker.Status) : Worker.Status :=
  { s with providerStatus := s.providerStatus.map Json.unsigned }

theorem Worker.Status.follows : Follows Worker.Status.ofJson Worker.Status.unsigned :=
  follows_record (fun _ => rfl) fun f => by
    simp [Fields.optional_unsigned f 4 follows_settle, Option.bind_map, Option.map_bind,
      Function.comp_def, Worker.Status.unsigned]

theorem Worker.faithful : Faithful Worker.toJson Worker.ofJson := by
  refine faithful_object (fun _ => rfl) (fun _ => rfl) (by decide) (fun _ => rfl) fun f x h => ?_
  simp only [Option.bind_eq_bind, Option.bind_eq_some_iff, Option.pure_def, Option.some.injEq] at h
  obtain ⟨metadata, h₁, spec, h₂, status, h₃, rfl⟩ := h
  have metadata := kept_required Metadata.faithful h₁
  have spec := kept_required Worker.Spec.faithful h₂
  have unset : Reads Worker.Status.ofJson default := ⟨.object [], rfl⟩
  have status := kept_withDefault Worker.Status.faithful unset h₃
  constructor
  · simp [metadata.returns, spec.returns, status.returns]
  · simp only [List.forall_mem_cons]
    exact ⟨metadata.readable _ rfl, spec.readable _ rfl, status.readable _ rfl, nofun⟩

theorem Worker.follows : Follows Worker.ofJson Worker.unsigned :=
  follows_record (fun _ => rfl) fun f => by
    have unset : Worker.Status.unsigned default = default := rfl
    simp [Fields.required_unsigned f 1 Worker.Spec.follows,
      Fields.withDefault_unsigned f 2 Worker.Status.follows unset, Option.bind_map,
      Option.map_bind, Function.comp_def, Worker.unsigned, Worker.Spec.unsigned,
      Worker.Status.unsigned]

theorem fields_without_status (metadata spec : Json) :
    (Json.object [("metadata", metadata), ("spec", spec)]).fields ["metadata", "spec", "status"] =
      some ⟨[some metadata, some spec, none], false⟩ := by
  simp [fields, occurrences, member?]

/-- The status may be left out. -/
theorem Worker.reads {m : Metadata} {s : Worker.Spec} (hm : Reads Metadata.ofJson m)
    (hs : Reads Worker.Spec.ofJson s) : Reads Worker.ofJson ⟨m, s, default⟩ := by
  obtain ⟨metadata, hm⟩ := hm
  obtain ⟨spec, hs⟩ := hs
  use .object [("metadata", metadata), ("spec", spec)]
  simp [ofJson, fields_without_status, Fields.required, Fields.withDefault, Fields.at?, hm, hs]

/-! ### What a worker owns -/

theorem MachineSet.Spec.faithful : Faithful MachineSet.Spec.toJson MachineSet.Spec.ofJson := by
  refine faithful_object (fun _ => rfl) (fun _ => rfl) (by decide) (fun _ => rfl) fun f x h => ?_
  simp only [Option.bind_eq_bind, Option.bind_eq_some_iff, Option.pure_def, Option.some.injEq] at h
  obtain ⟨pool, h₁, replicas, h₂, rfl⟩ := h
  have pool := kept_required faithful_string h₁
  have replicas := kept_required faithful_nat32 h₂
  constructor
  · simp [pool.returns, replicas.returns]
  · simp only [List.forall_mem_cons]
    exact ⟨pool.readable _ rfl, replicas.readable _ rfl, nofun⟩

@[simp] theorem MachineSet.Spec.blind : Blind MachineSet.Spec.ofJson :=
  blind_record (fun _ => rfl) fun f => by simp

theorem MachineSet.Status.faithful :
    Faithful MachineSet.Status.toJson MachineSet.Status.ofJson := by
  refine faithful_object (fun _ => rfl) (fun _ => rfl) (by decide) (fun _ => rfl) fun f x h => ?_
  simp only [Option.bind_eq_bind, Option.bind_eq_some_iff, Option.pure_def, Option.some.injEq] at h
  obtain ⟨readyReplicas, h₁, rfl⟩ := h
  have readyReplicas := kept_withDefault faithful_nat32 reads_zero32 h₁
  constructor
  · simp [readyReplicas.returns]
  · simp only [List.forall_mem_cons]
    exact ⟨readyReplicas.readable _ rfl, nofun⟩

@[simp] theorem MachineSet.Status.blind : Blind MachineSet.Status.ofJson :=
  blind_record (fun _ => rfl) fun f => by simp

theorem MachineSet.faithful : Faithful MachineSet.toJson MachineSet.ofJson := by
  refine faithful_object (fun _ => rfl) (fun _ => rfl) (by decide) (fun _ => rfl) fun f x h => ?_
  simp only [Option.bind_eq_bind, Option.bind_eq_some_iff, Option.pure_def, Option.some.injEq] at h
  obtain ⟨metadata, h₁, spec, h₂, status, h₃, rfl⟩ := h
  have metadata := kept_required Metadata.faithful h₁
  have spec := kept_required MachineSet.Spec.faithful h₂
  have unset : Reads MachineSet.Status.ofJson default := ⟨.object [], rfl⟩
  have status := kept_withDefault MachineSet.Status.faithful unset h₃
  constructor
  · simp [metadata.returns, spec.returns, status.returns]
  · simp only [List.forall_mem_cons]
    exact ⟨metadata.readable _ rfl, spec.readable _ rfl, status.readable _ rfl, nofun⟩

@[simp] theorem MachineSet.blind : Blind MachineSet.ofJson :=
  blind_record (fun _ => rfl) fun f => by simp

/-- The status may be left out. -/
theorem MachineSet.reads {m : Metadata} {s : MachineSet.Spec} (hm : Reads Metadata.ofJson m)
    (hs : Reads MachineSet.Spec.ofJson s) : Reads MachineSet.ofJson ⟨m, s, default⟩ := by
  obtain ⟨metadata, hm⟩ := hm
  obtain ⟨spec, hs⟩ := hs
  use .object [("metadata", metadata), ("spec", spec)]
  simp [ofJson, fields_without_status, Fields.required, Fields.withDefault, Fields.at?, hm, hs]

theorem Machine.Spec.faithful : Faithful Machine.Spec.toJson Machine.Spec.ofJson := by
  refine faithful_record (fun _ => rfl) (fun _ => rfl) (by decide) (fun _ => rfl) fun f x h => ?_
  simp only [Option.bind_eq_bind, Option.bind_eq_some_iff, Option.pure_def, Option.some.injEq] at h
  obtain ⟨machineSet, h₁, providerId, h₂, rfl⟩ := h
  have machineSet := kept_required faithful_string h₁
  have providerId := kept_optional faithful_string h₂
  constructor
  · simp [machineSet.returns, providerId.returns]
  · simp only [List.forall_mem_cons]
    exact ⟨machineSet.readable, providerId.readable, nofun⟩

@[simp] theorem Machine.Spec.blind : Blind Machine.Spec.ofJson :=
  blind_record (fun _ => rfl) fun f => by simp

theorem Machine.Status.toJson_eq (s : Machine.Status) :
    s.toJson = .object [("phase", Choice.toJson s.phase), ("node", s.node.elim .null .string)] := by
  cases s with
  | mk phase node => cases node <;> rfl

theorem Machine.Status.faithful : Faithful Machine.Status.toJson Machine.Status.ofJson := by
  refine faithful_object Machine.Status.toJson_eq (fun _ => rfl) (by decide) (fun _ => rfl)
    fun f x h => ?_
  simp only [Option.bind_eq_bind, Option.bind_eq_some_iff, Option.pure_def, Option.some.injEq] at h
  obtain ⟨phase, h₁, node, h₂, rfl⟩ := h
  have phase := kept_withDefault faithful_choice (reads_choice _) h₁
  have node := kept_nullable faithful_string h₂
  constructor
  · simp [phase.returns, node.returns]
  · simp only [List.forall_mem_cons]
    exact ⟨phase.readable _ rfl, node.readable _ rfl, nofun⟩

@[simp] theorem Machine.Status.blind : Blind Machine.Status.ofJson :=
  blind_record (fun _ => rfl) fun f => by simp

theorem Machine.faithful : Faithful Machine.toJson Machine.ofJson := by
  refine faithful_object (fun _ => rfl) (fun _ => rfl) (by decide) (fun _ => rfl) fun f x h => ?_
  simp only [Option.bind_eq_bind, Option.bind_eq_some_iff, Option.pure_def, Option.some.injEq] at h
  obtain ⟨metadata, h₁, spec, h₂, status, h₃, rfl⟩ := h
  have metadata := kept_required Metadata.faithful h₁
  have spec := kept_required Machine.Spec.faithful h₂
  have unset : Reads Machine.Status.ofJson default := ⟨.object [], rfl⟩
  have status := kept_withDefault Machine.Status.faithful unset h₃
  constructor
  · simp [metadata.returns, spec.returns, status.returns]
  · simp only [List.forall_mem_cons]
    exact ⟨metadata.readable _ rfl, spec.readable _ rfl, status.readable _ rfl, nofun⟩

@[simp] theorem Machine.blind : Blind Machine.ofJson :=
  blind_record (fun _ => rfl) fun f => by simp

/-- The status may be left out. -/
theorem Machine.reads {m : Metadata} {s : Machine.Spec} (hm : Reads Metadata.ofJson m)
    (hs : Reads Machine.Spec.ofJson s) : Reads Machine.ofJson ⟨m, s, default⟩ := by
  obtain ⟨metadata, hm⟩ := hm
  obtain ⟨spec, hs⟩ := hs
  use .object [("metadata", metadata), ("spec", spec)]
  simp [ofJson, fields_without_status, Fields.required, Fields.withDefault, Fields.at?, hm, hs]

/-! ### Clusters -/

theorem Cluster.Status.faithful : Faithful Cluster.Status.toJson Cluster.Status.ofJson := by
  refine faithful_object (fun _ => rfl) (fun _ => rfl) (by decide) (fun _ => rfl) fun f x h => ?_
  simp only [Option.bind_eq_bind, Option.bind_eq_some_iff, Option.pure_def, Option.some.injEq] at h
  obtain ⟨phase, h₁, rfl⟩ := h
  have phase := kept_withDefault faithful_choice (reads_choice _) h₁
  constructor
  · simp [phase.returns]
  · simp only [List.forall_mem_cons]
    exact ⟨phase.readable _ rfl, nofun⟩

@[simp] theorem Cluster.Status.blind : Blind Cluster.Status.ofJson :=
  blind_record (fun _ => rfl) fun f => by simp

theorem Cluster.faithful : Faithful Cluster.toJson Cluster.ofJson := by
  refine faithful_object (fun _ => rfl) (fun _ => rfl) (by decide) (fun _ => rfl) fun f x h => ?_
  simp only [Option.bind_eq_bind, Option.bind_eq_some_iff, Option.pure_def, Option.some.injEq] at h
  obtain ⟨metadata, h₁, status, h₂, rfl⟩ := h
  have metadata := kept_required Metadata.faithful h₁
  have unset : Reads Cluster.Status.ofJson default := ⟨.object [], rfl⟩
  have status := kept_withDefault Cluster.Status.faithful unset h₂
  constructor
  · simp [metadata.returns, status.returns]
  · simp only [List.forall_mem_cons]
    exact ⟨metadata.readable _ rfl, status.readable _ rfl, nofun⟩

@[simp] theorem Cluster.blind : Blind Cluster.ofJson :=
  blind_record (fun _ => rfl) fun f => by simp

theorem Cluster.reads {m : Metadata} (hm : Reads Metadata.ofJson m) :
    Reads Cluster.ofJson ⟨m, default⟩ := by
  obtain ⟨metadata, hm⟩ := hm
  use .object [("metadata", metadata)]
  simp [ofJson, fields, occurrences, member?, Fields.required, Fields.withDefault, Fields.at?, hm]

/-! ### Events -/

namespace Event

variable {K : Type} [Resource K]

/-- The value is an object without a member that could be taken for the tag. -/
def Untagged (j : Json) : Prop := ∃ members, j = .object members ∧ ∀ m ∈ members, m.1 ≠ "type"

/-- What follows the tag. -/
def parts : Event K → Json
  | .updated x y => .object [("old", Resource.toJson x), ("new", Resource.toJson y)]
  | .created x | .deleted x | .generic x => Resource.toJson x

theorem toJson_eq (e : Event K) : e.toJson = tagged e.kind e.parts := by
  cases e <;> rfl

theorem untagged_parts (untagged : ∀ x : K, Untagged (Resource.toJson x)) (e : Event K) :
    Untagged e.parts := by
  cases e with
  | updated x y => exact ⟨_, rfl, by simp⟩
  | created x | deleted x | generic x => exact untagged x

/-- A tag is found and taken out. -/
theorem ofJson_tagged {kind : EventKind} {j : Json} (untagged : Untagged j)
    (readable : j.Readable) :
    (ofJson (tagged kind j) : Option (Event K)) = ofParts kind j := by
  obtain ⟨members, rfl, others⟩ := untagged
  have readable : (tagged kind (.object members)).Readable :=
    readable_object.mpr (List.forall_mem_cons.mpr ⟨readable_string _, readable_object.mp readable⟩)
  have settles : ¬ (tagged kind (.object members)).settle.isNone = true := by
    simpa [Readable, Option.isSome_iff_ne_none] using readable
  have once : occurrences "type" (("type", Choice.toJson kind) :: members) = 1 := by
    have none_ : members.countP (fun m => m.1 == "type") = 0 := by
      simpa [List.countP_eq_zero] using others
    simp [occurrences, none_]
  have tag : member? "type" (("type", Choice.toJson kind) :: members) =
      some (Choice.toJson kind) := by
    simp [member?, member?_eq_none others]
  have rest : (("type", Choice.toJson kind) :: members).filter (fun m => m.1 ≠ "type") =
      members := by
    simpa using others
  rw [ofJson.eq_def, if_neg settles]
  simp only [tagged, Json.members, once, tag, rest, if_true, Option.bind_eq_bind, Option.bind_some]
  simp [Choice.toJson, asString, Choice.ofName?_name]

/-- What is read of an event is read of the parts behind some tag. -/
theorem ofParts_of_ofJson {j : Json} {e : Event K} (h : ofJson j = some e) :
    ∃ kind j', ofParts kind j' = some e := by
  unfold ofJson at h
  obtain ⟨-, h⟩ := Option.ite_none_left_eq_some.mp h
  split at h
  · simp only [Option.bind_eq_bind, Option.ite_none_right_eq_some, Option.bind_eq_some_iff] at h
    obtain ⟨-, _, -, _, -, kind, -, h⟩ := h
    exact ⟨kind, _, h⟩
  · obtain ⟨kind, -, h⟩ := Option.bind_eq_some_iff.mp h
    exact ⟨kind, _, h⟩
  · cases h

/-- The objects of an event are read of something. -/
def ObjectsRead (e : Event K) : Prop :=
  Reads Resource.ofJson e.object ∧ ∀ x ∈ e.old?, Reads Resource.ofJson x

theorem objectsRead_of_ofParts {kind : EventKind} {j : Json} {e : Event K}
    (h : ofParts kind j = some e) : e.ObjectsRead := by
  cases kind with
  | updated =>
    simp only [ofParts, Option.bind_eq_bind, Option.bind_eq_some_iff, Option.pure_def,
      Option.some.injEq] at h
    obtain ⟨f, -, x, hx, y, hy, rfl⟩ := h
    obtain ⟨old, -, hx⟩ := Option.bind_eq_some_iff.mp hx
    obtain ⟨new, -, hy⟩ := Option.bind_eq_some_iff.mp hy
    refine ⟨⟨new, hy⟩, fun x' same => ?_⟩
    obtain rfl := Option.some.inj same
    exact ⟨old, hx⟩
  | created | deleted | generic =>
    obtain ⟨x, hx, rfl⟩ := Option.map_eq_some_iff.mp h
    refine ⟨⟨j, hx⟩, fun _ old => ?_⟩
    cases old

/-- The parts of an event come back if its objects do. -/
theorem ofParts_parts (h : Faithful (Resource.toJson (K := K)) Resource.ofJson) {e : Event K}
    (he : e.ObjectsRead) : ofParts e.kind e.parts = some e ∧ e.parts.Readable := by
  obtain ⟨object, old⟩ := he
  cases e with
  | updated x y =>
    have old : Reads Resource.ofJson x := old x rfl
    have new : Reads Resource.ofJson y := object
    have fields : (parts (.updated x y)).fields ["old", "new"] =
        some ⟨[some (Resource.toJson x), some (Resource.toJson y)], false⟩ := by
      simp [parts, Json.fields, occurrences, member?]
    constructor
    · simp [ofParts, kind, fields, Fields.required, Fields.at?, h.returns old, h.returns new]
    · simp [parts, h.readable old, h.readable new]
  | created x | deleted x | generic x =>
    have returns : Resource.ofJson (Resource.toJson x) = some x := h.returns object
    exact ⟨by simp [ofParts, kind, parts, returns], h.readable object⟩

variable (h : Faithful (Resource.toJson (K := K)) Resource.ofJson)
  (untagged : ∀ x : K, Untagged (Resource.toJson x))

include h untagged

theorem ofJson_toJson {e : Event K} (he : e.ObjectsRead) : ofJson e.toJson = some e := by
  obtain ⟨returns, readable⟩ := ofParts_parts h he
  rw [toJson_eq, ofJson_tagged (untagged_parts untagged e) readable, returns]

/-- An event is read exactly if its objects are. -/
theorem reads_iff {e : Event K} : Reads ofJson e ↔ e.ObjectsRead := by
  constructor
  · rintro ⟨j, he⟩
    obtain ⟨kind, j', hp⟩ := ofParts_of_ofJson he
    exact objectsRead_of_ofParts hp
  · intro he
    exact ⟨e.toJson, ofJson_toJson h untagged he⟩

/-- **Events come back if their objects do.** -/
theorem faithful : Faithful (Event.toJson (K := K)) Event.ofJson where
  returns he := ofJson_toJson h untagged ((reads_iff h untagged).mp he)
  readable {e} he := by
    obtain ⟨-, readable⟩ := ofParts_parts h ((reads_iff h untagged).mp he)
    obtain ⟨members, object, -⟩ := untagged_parts untagged e
    rw [object] at readable
    rw [toJson_eq, object]
    exact readable_object.mpr
      (List.forall_mem_cons.mpr ⟨readable_string _, readable_object.mp readable⟩)
  present {_ e} _ _ := by
    rw [toJson_eq]
    exact nofun

omit h untagged

/-- The event without the signs of the free-form data in its objects. -/
def unsigned : Event K → Event K
  | .created x => .created (Resource.unsigned x)
  | .updated x y => .updated (Resource.unsigned x) (Resource.unsigned y)
  | .deleted x => .deleted (Resource.unsigned x)
  | .generic x => .generic (Resource.unsigned x)

theorem ofParts_follows (h : Follows (Resource.ofJson (K := K)) Resource.unsigned)
    (kind : EventKind) : Follows (ofParts (K := K) kind) unsigned := by
  intro j
  cases kind with
  | updated =>
    simp [ofParts, fields_unsigned, Fields.required_unsigned _ _ h, Option.bind_map,
      Option.map_bind, Function.comp_def, unsigned]
  | created | deleted | generic =>
    simp [ofParts, h j, Function.comp_def, unsigned]

/-- **Events follow if their objects do.** -/
theorem follows (h : Follows (Resource.ofJson (K := K)) Resource.unsigned) :
    Follows (Event.ofJson (K := K)) unsigned := by
  intro j
  have settles : j.unsigned.settle.isNone = j.settle.isNone := by
    rw [settle_unsigned, Option.isNone_map]
  rw [ofJson.eq_def, ofJson.eq_def, settles]
  split
  · rfl
  cases j with
  | object members =>
    have rest := filter_unsignedMembers (fun n => n ≠ "type") members
    have kind (v : Json) : v.unsigned.asString = v.asString := blind_string v
    have parts (k : EventKind) := ofParts_follows h k (.object (members.filter (·.1 ≠ "type")))
    simp only [Json.unsigned] at parts
    simp only [Json.unsigned, occurrences_unsignedMembers, member?_unsignedMembers, rest]
    split
    · simp only [Option.bind_eq_bind, Option.bind_map, Option.map_bind, Function.comp_def, kind,
        parts]
    · rfl
  | array items =>
    cases items with
    | nil => rfl
    | cons v rest =>
      cases v with
      | string tag =>
        have parts (k : EventKind) := ofParts_follows h k (.array rest)
        simp only [Json.unsigned] at parts
        simp only [Json.unsigned, unsignedItems, Option.map_bind, Function.comp_def, parts]
      | _ => rfl
  | _ => rfl

end Event

/-! ### Resources -/

section

variable {α : Type} {write : α → Json} {read : Json → Option α} {unsign : α → α}

/-- What is read comes back. -/
structure RoundTrips (write : α → Json) (read : Json → Option α) (unsign : α → α) : Prop where
  returns : ∀ {j x}, read j = some x → read (write x) = some x
  /-- Writing what is read changes nothing the second time. -/
  idempotent : ∀ {j j'}, (read j).map write = some j' → (read j').map write = some j'
  injective : ∀ {i j x y}, read i = some x → read j = some y → write x = write y → x = y
  /-- Values that are written as equal data are equal up to the signs as well. -/
  same : ∀ {i j x y}, read i = some x → read j = some y → Json.same (write x) (write y) = true →
    unsign x = unsign y

theorem roundTrips (h : Faithful write read) (follows : Follows read unsign) :
    RoundTrips write read unsign where
  returns {j _} hx := h.returns ⟨j, hx⟩
  idempotent {j _} hj := by
    obtain ⟨x, hx, rfl⟩ := Option.map_eq_some_iff.mp hj
    rw [h.returns ⟨j, hx⟩, Option.map_some]
  injective {i j x y} hx hy same := by
    apply Option.some.inj
    rw [← h.returns ⟨i, hx⟩, same, h.returns ⟨j, hy⟩]
  same {i j x y} hx hy same := by
    have same : (write x).unsigned = (write y).unsigned := of_decide_eq_true same
    apply Option.some.inj
    calc some (unsign x)
      _ = (read (write x)).map unsign := by rw [h.returns ⟨i, hx⟩, Option.map_some]
      _ = read (write y).unsigned := by rw [← follows, same]
      _ = some (unsign y) := by rw [follows, h.returns ⟨j, hy⟩, Option.map_some]

end

/-- The objects of a kind and the events about them come back from JSON. -/
structure ComesBack (K : Type) [Resource K] : Prop where
  /-- Objects are read, whatever their names and uids. -/
  reads : ∀ ns name uid, ∃ x : K, Resource.metadata x = .new ns name uid ∧ Reads Resource.ofJson x
  objects : RoundTrips (Resource.toJson (K := K)) Resource.ofJson Resource.unsigned
  /-- Events are read, whatever they tell of objects that are. -/
  told : ∀ e : Event K, Reads Event.ofJson e ↔ e.ObjectsRead
  events : RoundTrips (Event.toJson (K := K)) Event.ofJson Event.unsigned

theorem comesBack {K : Type} [Resource K]
    (reads : ∀ ns name uid, ∃ x : K, Resource.metadata x = .new ns name uid ∧
      Reads Resource.ofJson x)
    (faithful : Faithful (Resource.toJson (K := K)) Resource.ofJson)
    (follows : Follows (Resource.ofJson (K := K)) Resource.unsigned)
    (untagged : ∀ x : K, Event.Untagged (Resource.toJson x)) : ComesBack K where
  reads := reads
  objects := roundTrips faithful follows
  told _ := Event.reads_iff faithful untagged
  events := roundTrips (Event.faithful faithful untagged) (Event.follows follows)

/-- **Everything that is read as a resource or an event comes back from what is written of it.** -/
theorem resources_comeBack :
    ComesBack Worker ∧ ComesBack MachineSet ∧ ComesBack Machine ∧ ComesBack Cluster := by
  have new := Metadata.reads_new
  have worker : ComesBack Worker := by
    apply comesBack _ Worker.faithful Worker.follows fun _ => ⟨_, rfl, by simp⟩
    intro ns name uid
    have spec : Reads Worker.Spec.ofJson ⟨"local", "eu", [], none⟩ :=
      ⟨.array [.string "local", .string "eu", .array [], .null], rfl⟩
    exact ⟨_, rfl, Worker.reads (new ns name uid) spec⟩
  have machineSet : ComesBack MachineSet := by
    apply comesBack _ MachineSet.faithful MachineSet.blind.follows fun _ => ⟨_, rfl, by simp⟩
    intro ns name uid
    have spec : Reads MachineSet.Spec.ofJson ⟨"pool", 3⟩ := ⟨.array [.string "pool", .int 3], rfl⟩
    exact ⟨_, rfl, MachineSet.reads (new ns name uid) spec⟩
  have machine : ComesBack Machine := by
    apply comesBack _ Machine.faithful Machine.blind.follows fun _ => ⟨_, rfl, by simp⟩
    intro ns name uid
    have spec : Reads Machine.Spec.ofJson ⟨"set", none⟩ := ⟨.array [.string "set", .null], rfl⟩
    exact ⟨_, rfl, Machine.reads (new ns name uid) spec⟩
  have cluster : ComesBack Cluster := by
    apply comesBack _ Cluster.faithful Cluster.blind.follows fun _ => ⟨_, rfl, by simp⟩
    intro ns name uid
    exact ⟨_, rfl, Cluster.reads (new ns name uid)⟩
  exact ⟨worker, machineSet, machine, cluster⟩

/-- What comes back is written in one form, however it was read. -/
example : (Event.ofJson (K := Cluster) (.array [.string "deleted", .object [("name", .string "a"),
    ("namespace", .string ""), ("uid", .string "uid_01arz3ndektsv4rrffq69g5fav"),
    ("creationTimestamp", .string "2024-01-02 03:04:05+01:00")]])).map Event.toJson =
      some (.object [("type", .string "deleted"),
        ("metadata", .object [("name", .string "a"), ("namespace", .string ""),
          ("uid", .string "uid_01ARZ3NDEKTSV4RRFFQ69G5FAV"), ("generation", .int 0),
          ("resourceVersion", .int 0), ("creationTimestamp", .string "2024-01-02T02:04:05Z")]),
        ("status", .object [("phase", .string "Healthy")])]) := by
  decide +kernel

end PoolControl
