import PoolControl.Proofs.Loop.Report
import PoolControl.Proofs.Routing.Resolution
import PoolControl.Routing.Wiring
import PoolControl.Trial.Fixture

/-! Who owns a dependent, for the events and for the reports.

An event is mapped to the worker of one reference: the only one, or else the only controlling
one (`Mapping.Counts`). A report counts a dependent for every worker that one of its references
means (`owns_iff_means`). So the two agree on dependents with at most one reference to a worker,
which are the ones meant to exist. `mapped_iff_counted` says what they make of any other: the
worker that is found counts the dependent, a further worker counts it exactly for a further
reference, and an event that is dropped leaves the references as they are. -/
namespace PoolControl

/-- A worker owns what one of the references means. -/
theorem Worker.owns_iff_means {w : Worker} {m : Metadata} : w.Owns m ↔
    ∃ r ∈ m.ownersOfKind Kind.worker.name, w.key = ⟨m.ns, r.name⟩ ∧ r.means w.metadata = true := by
  simp only [Metadata.ownersOfKind, List.mem_filter, beq_iff_eq, OwnerReference.means_iff]
  constructor
  · rintro ⟨ns, r, mem, kind, name, uid⟩
    refine ⟨r, ⟨mem, kind⟩, ?_, uid⟩
    rw [name, ns]
    rfl
  · rintro ⟨r, ⟨mem, kind⟩, key, uid⟩
    exact ⟨(congrArg Key.ns key).symm, r, mem, kind, (congrArg Key.name key).symm, uid⟩

/-! ### Events and reports -/

/-- Whether a reference in a namespace means the worker of a key. -/
def OwnerReference.LeadsTo (r : OwnerReference) (ns : String) (k : Key) (w : Worker) : Prop :=
  k = ⟨ns, r.name⟩ ∧ r.means w.metadata = true

section

variable {K : Type} [Resource K]

/-- A report counts what one of the references means. -/
theorem Report.mem_dependents {s : Store K} (h : s.Indexed) {k : Key} {w : Worker}
    (key : w.key = k) {x : K} (stored : s.get? (Resource.key x) = some x) :
    x ∈ dependents s k w ↔ ∃ r ∈ (Resource.metadata x).ownersOfKind Kind.worker.name,
      r.LeadsTo (Resource.metadata x).ns k w := by
  subst key
  rw [dependents_eq h, List.mem_filter, and_iff_right (h.mem_list.mpr stored), decide_eq_true_eq]
  exact Worker.owns_iff_means

/-- **Events and reports agree on the owner of a dependent, but for further references.** The
worker that a dependent is mapped to counts it. Any other cached worker counts it exactly if
one of several references, which is not controlling, means that worker; and so it is if the
dependent is mapped to no key. If it cannot be mapped, the workers that count it are those
that one of several references means, or one without a name. -/
theorem mapped_iff_counted (ws : List (Event Worker)) (es : List (Event K)) (caches : Caches)
    (x : K) (cached : caches.workers = Store.replay ws)
    (stored : (Store.replay es).get? (Resource.key x) = some x) :
    let s : Store K := Store.replay es
    let ns := (Resource.metadata x).ns
    let refs := (Resource.metadata x).ownersOfKind Kind.worker.name
    let mapped := Mapping.ownerOf Worker .always caches x
    (∀ k, mapped = .ok (OrderedSet.single k) →
      (∃ w, caches.workers.get? k = some w ∧ x ∈ Report.dependents s k w) ∧
        ∀ k' w', caches.workers.get? k' = some w' → k' ≠ k →
          (x ∈ Report.dependents s k' w' ↔
            ∃ r ∈ refs, (2 ≤ refs.length ∧ r.controller = false) ∧ r.LeadsTo ns k' w')) ∧
      (mapped = .ok ∅ → ∀ k' w', caches.workers.get? k' = some w' →
        (x ∈ Report.dependents s k' w' ↔
          ∃ r ∈ refs, (2 ≤ refs.length ∧ r.controller = false) ∧ r.LeadsTo ns k' w')) ∧
      (∀ e, mapped = .error e → ∀ k' w', caches.workers.get? k' = some w' →
        (x ∈ Report.dependents s k' w' ↔
          ∃ r ∈ refs, (2 ≤ refs.length ∨ r.name = "") ∧ r.LeadsTo ns k' w')) ∧
      ((∃ k, mapped = .ok (OrderedSet.single k)) ∨ mapped = .ok ∅ ∨ ∃ e, mapped = .error e) := by
  intro s ns refs mapped
  have counted {k : Key} {w : Worker} (found : caches.workers.get? k = some w) :
      x ∈ Report.dependents s k w ↔ ∃ r ∈ refs, r.LeadsTo ns k w := by
    refine Report.mem_dependents (Store.indexed_replay es) ?_ stored
    exact (Store.indexed_replay ws).keyed k w (cached ▸ found)
  refine ⟨fun k one => ?_, fun none_ k' w' found => ?_, fun e failed k' w' found => ?_,
    (Mapping.resolved_ownerOf Worker .always caches x).outcomes⟩
  · obtain ⟨r, counts, -, rfl, w, found, means, -⟩ := Mapping.ownerOf_eq_single_iff.mp one
    have leads : r.LeadsTo ns ⟨ns, r.name⟩ w := ⟨rfl, OwnerReference.means_iff.mpr means⟩
    refine ⟨⟨w, found, (counted found).mpr ⟨r, counts.mem, leads⟩⟩, fun k' w' found' other => ?_⟩
    rw [counted found']
    exact counts.further fun leads' => other leads'.1
  · rw [counted found]
    obtain ⟨unambiguous, lost⟩ := Mapping.ownerOf_eq_empty_iff.mp none_
    rcases Mapping.nobody_or_counts unambiguous with nobody | ⟨r, counts⟩
    · rw [show refs = [] from nobody]
      simp only [List.not_mem_nil, false_and, exists_false]
    -- All workers will do, so the reference that counts means none of them.
    · refine counts.further fun leads => (lost r counts).2 ?_
      exact ⟨w', leads.1 ▸ found, OwnerReference.means_iff.mp leads.2, rfl⟩
  · rw [counted found]
    refine exists_congr fun r => and_congr_right fun mem => (and_iff_right ?_).symm
    exact Mapping.several_or_nameless failed mem

end

/-- A machine with one reference is counted by the worker it is mapped to and by no other. -/
theorem mapped_iff_counted_once :
    let a := Trial.Fixture.worker "tenant" "a" default
    let b := Trial.Fixture.worker "tenant" "b" default
    let x := Trial.Fixture.machine a "set" "machine" default .ready none
    let caches : Caches := { (default : Caches) with
      workers := Store.replay [.created a, .created b] }
    let s := Store.replay [.created x]
    s.get? (Resource.key x) = some x ∧
      Mapping.ownerOf Worker .always caches x = .ok (OrderedSet.single a.key) ∧
      (∃ w, caches.workers.get? a.key = some w ∧ x ∈ Report.dependents s a.key w) ∧
      x ∉ Report.dependents s b.key b := by
  intro a b x caches s
  have stored : s.get? (Resource.key x) = some x := by decide
  have mapped : Mapping.ownerOf Worker .always caches x = .ok (OrderedSet.single a.key) := by decide
  obtain ⟨found, others⟩ :=
    (mapped_iff_counted [.created a, .created b] [.created x] caches x rfl stored).1 a.key mapped
  refine ⟨stored, mapped, found, fun counted => ?_⟩
  obtain ⟨_, _, ⟨several, _⟩, _⟩ := (others b.key b (by decide) (by decide)).mp counted
  exact absurd several (by decide)

/-- A plain reference beside the controlling one makes two workers count a machine that is mapped
to one of them, and two controlling references make both count one that is not mapped at all. -/
theorem counted_beside_mapped :
    let a := Trial.Fixture.worker "tenant" "a" default
    let b := Trial.Fixture.worker "tenant" "b" default
    let owned := Trial.Fixture.machine a "set" "machine" default .ready none
    let x := Resource.mapMetadata (fun m => { m with
      owners := m.owners ++ [{ Resource.controllerReference b with controller := false }] }) owned
    let y := Resource.ownedBy b owned
    let caches : Caches := { (default : Caches) with
      workers := Store.replay [.created a, .created b] }
    (Mapping.ownerOf Worker .always caches x = .ok (OrderedSet.single a.key) ∧
        caches.workers.get? b.key = some b ∧ b.key ≠ a.key ∧
        x ∈ Report.dependents (Store.replay [.created x]) b.key b) ∧
      Mapping.ownerOf Worker .always caches y = .error (.ambiguousOwner y.metadata.key .worker 2) ∧
      caches.workers.get? a.key = some a ∧
      y ∈ Report.dependents (Store.replay [.created y]) a.key a := by
  decide

end PoolControl
