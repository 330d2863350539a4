import Mathlib.Data.List.Induction
import Mathlib.Data.List.Rotate
import PoolControl.Loop.Report
import PoolControl.Trial.Fixture

/-! The state of a worker's machines is an account of them.

A state is made up by going through the machine sets and then through the machines, and an entry
may be opened by either. `Accounts` says what a state has to say of the sets and machines that
were gone through: which entries there are, what each of them shows, and how many machines are
in each phase. Every step keeps it as long as no name is repeated (`Accounts.addSet`,
`Accounts.addMachine`). No two states account for the same objects (`Accounts.eq`), and the order
of the objects does not matter to it, so it does not matter to the state either:
`aggregate_accounts`. -/
namespace PoolControl

attribute [ext] MachineSetState WorkerState

/-- What a state shows of a machine. -/
def Machine.state (x : Machine) : MachineState := ⟨x.status.phase, x.status.node⟩

namespace Report

variable {sets sets' : List MachineSet} {machines machines' : List Machine} {s s' : WorkerState}
variable {n : String}

/-! ### Entries -/

theorem get?_of_mem (h : n ∈ s.machineSets) : s.machineSets.get? n = some (entry s n) := by
  obtain ⟨e, he⟩ := Option.isSome_iff_exists.mp (OrderedMap.mem_iff.mp h)
  rw [entry, OrderedMap.getD, he]
  rfl

/-- Entries that are there and are the same make the same map. -/
theorem machineSets_eq (mem : ∀ n, n ∈ s.machineSets ↔ n ∈ s'.machineSets)
    (same : ∀ n, entry s n = entry s' n) : s.machineSets = s'.machineSets := by
  refine OrderedMap.ext_get? fun n => ?_
  by_cases h : n ∈ s.machineSets
  · rw [get?_of_mem h, get?_of_mem ((mem n).mp h), same]
  · have h' := mt (mem n).mpr h
    rw [OrderedMap.mem_iff, Option.not_isSome_iff_eq_none] at h h'
    rw [h, h']

theorem mem_addSet {x : MachineSet} :
    n ∈ (addSet s x).machineSets ↔ n = x.metadata.name ∨ n ∈ s.machineSets := by
  simp only [addSet, OrderedMap.mem_iff, OrderedMap.get?_insert]
  by_cases h : n = x.metadata.name <;> simp [h]

theorem mem_addMachine {x : Machine} :
    n ∈ (addMachine s x).machineSets ↔ n = x.spec.machineSet ∨ n ∈ s.machineSets := by
  simp only [addMachine, OrderedMap.mem_iff, OrderedMap.get?_insert]
  by_cases h : n = x.spec.machineSet <;> simp [h]

theorem entry_addSet (s : WorkerState) (x : MachineSet) (n : String) :
    entry (addSet s x) n = if n = x.metadata.name then
      { entry s n with pool := some x.spec.pool, replicas := x.spec.replicas } else entry s n := by
  rw [entry, OrderedMap.getD, addSet, OrderedMap.get?_insert]
  by_cases h : n = x.metadata.name
  · rw [if_pos h, if_pos h, h]
    rfl
  · rw [if_neg h, if_neg h]
    rfl

theorem entry_addMachine (s : WorkerState) (x : Machine) (n : String) :
    entry (addMachine s x) n = if n = x.spec.machineSet then
      { entry s n with machines := (entry s n).machines.insert x.metadata.name x.state }
      else entry s n := by
  rw [entry, OrderedMap.getD, addMachine, OrderedMap.get?_insert]
  by_cases h : n = x.spec.machineSet
  · rw [if_pos h, if_pos h, h]
    rfl
  · rw [if_neg h, if_neg h]
    rfl

/-! ### Totals -/

/-- The number of machines in all entries. -/
def listed (s : WorkerState) : Nat :=
  s.machineSets.total fun e => e.machines.total fun _ => 1

/-- The number of machines in all phases. -/
def counted (s : WorkerState) : Nat := s.phaseCounts.total id

/-- What an entry counts for, whether or not it is there. -/
theorem elim_get? (s : WorkerState) (n : String) :
    ((s.machineSets.get? n).elim 0 fun e => e.machines.total fun _ => 1) =
      (entry s n).machines.total fun _ => 1 := by
  rw [entry, OrderedMap.getD]
  cases s.machineSets.get? n <;> rfl

theorem listed_addSet (s : WorkerState) (x : MachineSet) : listed (addSet s x) = listed s := by
  have total := OrderedMap.total_insert (fun e : MachineSetState => e.machines.total fun _ => 1)
    s.machineSets x.metadata.name
    { entry s x.metadata.name with pool := some x.spec.pool, replicas := x.spec.replicas }
  rw [elim_get?] at total
  exact Nat.add_right_cancel total

/-- A machine whose name is new to its entry is one more. -/
theorem listed_addMachine {x : Machine}
    (new : (entry s x.spec.machineSet).machines.get? x.metadata.name = none) :
    listed (addMachine s x) = listed s + 1 := by
  have total := OrderedMap.total_insert (fun e : MachineSetState => e.machines.total fun _ => 1)
    s.machineSets x.spec.machineSet
    { entry s x.spec.machineSet with
      machines := (entry s x.spec.machineSet).machines.insert x.metadata.name x.state }
  have one := OrderedMap.total_insert (fun _ : MachineState => 1)
    (entry s x.spec.machineSet).machines x.metadata.name x.state
  rw [elim_get?] at total
  rw [new, Option.elim_none, Nat.add_zero] at one
  rw [one, ← Nat.add_assoc, Nat.add_right_comm] at total
  exact Nat.add_right_cancel total

theorem counted_addMachine (s : WorkerState) (x : Machine) :
    counted (addMachine s x) = counted s + 1 := by
  have total := OrderedMap.total_insert id s.phaseCounts x.status.phase
    (s.phaseCounts.getD x.status.phase 0 + 1)
  have old : (s.phaseCounts.get? x.status.phase).elim 0 id =
      s.phaseCounts.getD x.status.phase 0 := by
    rw [OrderedMap.getD]
    cases s.phaseCounts.get? x.status.phase <;> rfl
  rw [old, id, ← Nat.add_assoc, Nat.add_right_comm] at total
  exact Nat.add_right_cancel total

theorem foldl_add (l : List (MachinePhase × Nat)) (n : Nat) :
    (l.map (·.2)).foldl (· + ·) n = n + Bindings.total id l := by
  induction l generalizing n with
  | nil => rfl
  | cons b rest ih =>
    rw [List.map_cons, List.foldl_cons, ih, Bindings.total, Nat.add_assoc]
    rfl

theorem machineCount_eq (s : WorkerState) : s.machineCount = counted s % 4294967296 := by
  rw [WorkerState.machineCount, OrderedMap.values, foldl_add, Nat.zero_add]
  rfl

/-! ### Accounts -/

/-- What a state says of machine sets and machines: nothing is missing and nothing else is there. -/
structure Accounts (sets : List MachineSet) (machines : List Machine) (s : WorkerState) : Prop where
  /-- There is an entry for each set, and for each set that a machine names. -/
  entries : ∀ n, n ∈ s.machineSets ↔
    (∃ x ∈ sets, x.metadata.name = n) ∨ ∃ x ∈ machines, x.spec.machineSet = n
  known : ∀ x ∈ sets, (entry s x.metadata.name).pool = some x.spec.pool ∧
    (entry s x.metadata.name).replicas = x.spec.replicas
  unknown : ∀ n, (∀ x ∈ sets, x.metadata.name ≠ n) →
    (entry s n).pool = none ∧ (entry s n).replicas = 0
  /-- An entry shows the machines that name its set, under their names. -/
  shown : ∀ n name y, (entry s n).machines.get? name = some y ↔
    ∃ x ∈ machines, x.spec.machineSet = n ∧ x.metadata.name = name ∧ x.state = y
  /-- The phases that occur are there with the number of machines in them. -/
  phases : ∀ p n, s.phaseCounts.get? p = some n ↔
    n = machines.countP (·.status.phase = p) ∧ n ≠ 0
  listed : listed s = machines.length
  counted : counted s = machines.length

theorem accounts_empty : Accounts [] [] ⟨∅, ∅⟩ where
  entries _ := by simp [OrderedMap.mem_iff]
  known _ h := by cases h
  unknown _ _ := ⟨rfl, rfl⟩
  shown _ _ _ := by simp [entry, OrderedMap.getD]
  phases _ _ := by simp
  listed := rfl
  counted := rfl

/-- A machine set of a new name is accounted for. -/
theorem Accounts.addSet (h : Accounts sets machines s) {x : MachineSet}
    (new : ∀ y ∈ sets, y.metadata.name ≠ x.metadata.name) :
    Accounts (sets ++ [x]) machines (Report.addSet s x) where
  entries n := by
    rw [mem_addSet, h.entries]
    simp only [List.mem_append, List.mem_singleton, or_and_right, exists_or, exists_eq_left]
    rw [or_right_comm, or_comm, eq_comm]
  known y hy := by
    rw [entry_addSet]
    rcases List.mem_append.mp hy with hy | hy
    · rw [if_neg (new y hy)]
      exact h.known y hy
    · obtain rfl := List.mem_singleton.mp hy
      rw [if_pos rfl]
      exact ⟨rfl, rfl⟩
  unknown n hn := by
    have other : n ≠ x.metadata.name :=
      (hn x (List.mem_append_right _ List.mem_cons_self)).symm
    rw [entry_addSet, if_neg other]
    exact h.unknown n fun y hy => hn y (List.mem_append_left _ hy)
  shown n name y := by
    rw [← h.shown, entry_addSet]
    split <;> rfl
  phases := h.phases
  listed := (listed_addSet s x).trans h.listed
  counted := h.counted

/-- A phase that is not there counts for nothing. -/
theorem Accounts.getD_phaseCounts (h : Accounts sets machines s) (p : MachinePhase) :
    s.phaseCounts.getD p 0 = machines.countP (·.status.phase = p) := by
  rw [OrderedMap.getD]
  cases found : s.phaseCounts.get? p with
  | some n => exact ((h.phases p n).mp found).1
  | none =>
    by_contra some_
    have found' := (h.phases p _).mpr ⟨rfl, Ne.symm some_⟩
    rw [found] at found'
    cases found'

/-- A machine of a new name is accounted for. -/
theorem Accounts.addMachine (h : Accounts sets machines s) {x : Machine}
    (new : ∀ y ∈ machines, y.metadata.name ≠ x.metadata.name) :
    Accounts sets (machines ++ [x]) (Report.addMachine s x) where
  entries n := by
    rw [mem_addMachine, h.entries]
    simp only [List.mem_append, List.mem_singleton, or_and_right, exists_or, exists_eq_left]
    rw [or_comm, or_assoc, eq_comm]
  known y hy := by
    rw [entry_addMachine]
    split
    · exact h.known y hy
    · exact h.known y hy
  unknown n hn := by
    rw [entry_addMachine]
    split
    · exact h.unknown n hn
    · exact h.unknown n hn
  shown n name y := by
    simp only [List.mem_append, List.mem_singleton, or_and_right, exists_or, exists_eq_left]
    rw [entry_addMachine, ← h.shown]
    by_cases set : n = x.spec.machineSet
    · rw [if_pos set, OrderedMap.get?_insert]
      by_cases own : name = x.metadata.name
      · have free : (entry s n).machines.get? name ≠ some y := by
          rw [Ne, h.shown]
          rintro ⟨z, hz, -, same, -⟩
          exact new z hz (same.trans own)
        rw [if_pos own, Option.some.injEq, or_iff_right free]
        exact ⟨fun hy => ⟨set.symm, own.symm, hy⟩, fun hy => hy.2.2⟩
      · rw [if_neg own]
        exact (or_iff_left fun hx => own hx.2.1.symm).symm
    · rw [if_neg set]
      exact (or_iff_left fun hx => set hx.1.symm).symm
  phases p n := by
    rw [Report.addMachine, OrderedMap.get?_insert, h.getD_phaseCounts, List.countP_append,
      List.countP_singleton]
    by_cases own : p = x.status.phase
    · subst own
      simp only [if_pos, decide_true, Option.some.injEq]
      omega
    · simp only [if_neg own, decide_eq_true_eq, if_neg (Ne.symm own), Nat.add_zero]
      exact h.phases p n
  listed := by
    have free : (entry s x.spec.machineSet).machines.get? x.metadata.name = none := by
      refine Option.eq_none_iff_forall_ne_some.mpr fun y => ?_
      rw [Ne, h.shown]
      rintro ⟨z, hz, -, same, -⟩
      exact new z hz same
    rw [listed_addMachine free, h.listed, List.length_append, List.length_singleton]
  counted := by rw [counted_addMachine, h.counted, List.length_append, List.length_singleton]

/-- The order of the objects does not matter to an account of them. -/
theorem Accounts.perm (h : Accounts sets machines s) (hs : sets.Perm sets')
    (hm : machines.Perm machines') : Accounts sets' machines' s where
  entries n := by simp only [h.entries, hs.mem_iff, hm.mem_iff]
  known x hx := h.known x (hs.mem_iff.mpr hx)
  unknown n hn := h.unknown n fun x hx => hn x (hs.mem_iff.mp hx)
  shown n name y := by simp only [h.shown, hm.mem_iff]
  phases p n := by rw [h.phases, hm.countP_eq]
  listed := h.listed.trans hm.length_eq
  counted := h.counted.trans hm.length_eq

/-- **No two states account for the same objects.** -/
theorem Accounts.eq (h : Accounts sets machines s) (h' : Accounts sets machines s') : s = s' := by
  have counts : s.phaseCounts = s'.phaseCounts :=
    OrderedMap.ext_get? fun p => Option.ext fun n => by rw [h.phases, h'.phases]
  have same (n : String) : entry s n = entry s' n := by
    have shown : (entry s n).machines = (entry s' n).machines :=
      OrderedMap.ext_get? fun name => Option.ext fun y => by rw [h.shown, h'.shown]
    have rest : (entry s n).pool = (entry s' n).pool ∧
        (entry s n).replicas = (entry s' n).replicas := by
      by_cases known : ∃ x ∈ sets, x.metadata.name = n
      · obtain ⟨x, hx, rfl⟩ := known
        rw [(h.known x hx).1, (h.known x hx).2, (h'.known x hx).1, (h'.known x hx).2]
        exact ⟨rfl, rfl⟩
      · have unknown : ∀ x ∈ sets, x.metadata.name ≠ n := fun x hx e => known ⟨x, hx, e⟩
        rw [(h.unknown n unknown).1, (h.unknown n unknown).2, (h'.unknown n unknown).1,
          (h'.unknown n unknown).2]
        exact ⟨rfl, rfl⟩
    exact MachineSetState.ext rest.1 rest.2 shown
  have entries : s.machineSets = s'.machineSets :=
    machineSets_eq (fun n => (h.entries n).trans (h'.entries n).symm) same
  exact WorkerState.ext entries counts

/-- Going through objects without repeated names accounts for them. -/
theorem accounts_aggregate (hs : (sets.map (·.metadata.name)).Nodup)
    (hm : (machines.map (·.metadata.name)).Nodup) :
    Accounts sets machines (aggregate sets machines) := by
  have gathered : Accounts sets [] (sets.foldl addSet ⟨∅, ∅⟩) := by
    clear hm
    induction sets using List.reverseRecOn with
    | nil => exact accounts_empty
    | append_singleton front x ih =>
      rw [List.map_append, List.nodup_append] at hs
      rw [List.foldl_append]
      refine (ih hs.1).addSet fun y hy => ?_
      exact hs.2.2 _ (List.mem_map_of_mem hy) _ List.mem_cons_self
  rw [aggregate]
  induction machines using List.reverseRecOn with
  | nil => exact gathered
  | append_singleton front x ih =>
    rw [List.map_append, List.nodup_append] at hm
    rw [List.foldl_append]
    refine (ih hm.1).addMachine fun y hy => ?_
    exact hm.2.2 _ (List.mem_map_of_mem hy) _ List.mem_cons_self

/-- **The state of a worker's machines accounts for them exactly.** Of machine sets and machines
without repeated names, it is the only state that has an entry for each set, known or named by a
machine, with the pool and the replicas of the set, the machines that name it, and the phases
counted. Its number of machines is right, and the order in which objects were found is not seen. -/
theorem aggregate_accounts (hs : (sets.map (·.metadata.name)).Nodup)
    (hm : (machines.map (·.metadata.name)).Nodup) (few : machines.length < 4294967296) :
    (∀ s, Accounts sets machines s ↔ s = aggregate sets machines) ∧
      (aggregate sets machines).machineCount = machines.length ∧
      ∀ sets' machines', sets.Perm sets' → machines.Perm machines' →
        aggregate sets' machines' = aggregate sets machines := by
  have accounts := accounts_aggregate hs hm
  refine ⟨fun s => ⟨fun h => h.eq accounts, fun h => h ▸ accounts⟩, ?_, ?_⟩
  · rw [machineCount_eq, accounts.counted]
    exact Nat.mod_eq_of_lt few
  · intro sets' machines' ps pm
    have hs' := (ps.map _).nodup_iff.mp hs
    have hm' := (pm.map _).nodup_iff.mp hm
    exact (accounts_aggregate hs' hm').eq (accounts.perm ps pm)

/-- Two machines of a set, a set without machines, and a machine whose set is gone. -/
theorem aggregate_accounts_orphan :
    let w := Trial.Fixture.worker "tenant" "pool" default
    let sets := [Trial.Fixture.machineSet w "a" default "small" 3,
      Trial.Fixture.machineSet w "b" default "large" 1]
    let machines := [Trial.Fixture.machine w "a" "m" default .ready (some "node"),
      Trial.Fixture.machine w "gone" "n" default .terminating none,
      Trial.Fixture.machine w "a" "o" default .ready none]
    ((sets.map (·.metadata.name)).Nodup ∧ (machines.map (·.metadata.name)).Nodup ∧
        machines.length < 4294967296) ∧
      Accounts sets machines (aggregate sets machines) ∧
      (aggregate sets machines).machineSets.keys = ["a", "b", "gone"] ∧
      (aggregate sets machines).phaseCounts.toList = [(.ready, 2), (.terminating, 1)] ∧
      (aggregate sets machines).machineCount = 3 ∧
      aggregate sets.reverse (machines.rotate 1) = aggregate sets machines := by
  intro w sets machines
  have distinct : (sets.map (·.metadata.name)).Nodup ∧ (machines.map (·.metadata.name)).Nodup := by
    decide
  obtain ⟨exact_, count, order⟩ := aggregate_accounts distinct.1 distinct.2 (by decide)
  exact ⟨⟨distinct.1, distinct.2, by decide⟩, (exact_ _).mpr rfl, by decide, by decide, count,
    order _ _ (List.reverse_perm sets).symm (List.rotate_perm machines 1).symm⟩

end Report

end PoolControl
