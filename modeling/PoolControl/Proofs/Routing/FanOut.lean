import PoolControl.Proofs.Queue.Batch
import PoolControl.Proofs.Queue.Service
import PoolControl.Proofs.Routing.Triggers
import PoolControl.Trial.Fixture

/-! What the event of a cluster hands to a queue.

An event that counts is for the workers of the backend in the namespace of the cluster, as long as
the cluster that is cached by then is not failed (`Wiring.Concerns`). Whatever the queue held
before, each of them is to be handed out exactly once afterwards (`fans_out`). -/
namespace PoolControl

namespace Wiring

/-- Whether the event of a cluster is for a worker: the worker is in the cluster's namespace and at
the backend, and its cluster is not known to be failed. -/
structure Concerns (backend : String) (caches : Caches) (e : Event Cluster) (w : Worker) :
    Prop where
  tenant : w.metadata.ns = e.object.metadata.name
  typed : w.spec.backend = backend
  up : ∀ c, caches.clusters.get? (Cluster.keyOf w.metadata.ns) = some c → c.status.phase ≠ .failed

variable {ignoreRequests : Bool} {backend : String} {caches : Caches} {e : Event Cluster}

/-- An event that counts queues the workers that it is for. -/
theorem mem_keys_clusters_iff (indexed : caches.workers.Indexed)
    (changed : ∀ old, e.old? = some old → old.status.phase ≠ e.object.status.phase) {k : Key} :
    k ∈ (clusters ignoreRequests backend).keys caches e ↔
      ∃ w ∈ caches.workers.list, w.key = k ∧ Concerns backend caches e w := by
  rw [mem_keys_clusters indexed.keyed,
    and_iff_right ((Predicate.keeps_clusterChanges caches.clusters e).mpr changed)]
  constructor
  · rintro ⟨ns, w, found, passes⟩
    obtain ⟨up, typed⟩ := (Predicate.keepsObject_worker_iff w).mp passes
    obtain rfl : w.key = k := indexed.keyed k w found
    exact ⟨w, indexed.mem_list.mpr found, rfl, ns, typed,
      Predicate.clusterFailed_eq_false_iff.mp up⟩
  · rintro ⟨w, cached, rfl, ns, typed, up⟩
    refine ⟨ns, w, indexed.mem_list.mp cached, (Predicate.keepsObject_worker_iff w).mpr ?_⟩
    exact ⟨Predicate.clusterFailed_eq_false_iff.mpr up, typed⟩

/-- An update that leaves the phase as it was queues nothing. -/
theorem keys_clusters_of_same {old : Cluster} (he : e.old? = some old)
    (same : old.status.phase = e.object.status.phase) :
    (clusters ignoreRequests backend).keys caches e = ∅ := by
  have drops : ¬ Predicate.clusterChanges.keeps caches.clusters e = true := fun passes =>
    (Predicate.keeps_clusterChanges caches.clusters e).mp passes old he same
  exact if_neg drops

end Wiring

/-- **The event of a cluster is for exactly its workers.** Whatever the caches hold and a queue went
through, an event other than an update that leaves the phase as it was hands the queue the keys of
the cached workers at the backend that are in the namespace of the cluster, unless their cluster is
known to be failed. If the queue is open, each of them is to be handed out once afterwards, and any
other key as often as before, which is once at most. An update that leaves the phase as it was hands
over nothing, and a queue that is shut down takes nothing. -/
theorem fans_out (backend : String) (ws : List (Event Worker)) (caches : Caches)
    (cached : caches.workers = Store.replay ws) (e : Event Cluster) (b : Backoff.Policy)
    (l : List (Deed Key)) (hl : (Service.opened b).Lawful l) :
    let q := ((Service.opened b).run l).queue
    let handed := (Wiring.clusters false backend).handOver caches e q
    ((∀ old, e.old? = some old → old.status.phase ≠ e.object.status.phase) →
      ∃ ks : OrderedSet Key,
        (∀ k, k ∈ ks ↔ ∃ w ∈ caches.workers.list, w.key = k ∧ Wiring.Concerns backend caches e w) ∧
          handed = (OrderedMap.size ks, q.addAll (OrderedSet.elements ks)) ∧
          (q.isShutDown = false →
            ∀ k, handed.2.pending k = if k ∈ ks then 1 else q.pending k)) ∧
      (∀ old, e.old? = some old → old.status.phase = e.object.status.phase → handed = (0, q)) ∧
      (q.isShutDown = true → handed.2 = q) ∧
      ∀ k, handed.2.pending k ≤ 1 := by
  intro q handed
  have tidy : q.Tidy := ((Service.orderly_opened b).run hl).tidy
  refine ⟨fun changed => ?_, fun old he same => ?_, WorkQueue.addAll_of_shutDown _,
    (tidy.addAll _).pending_le_one⟩
  · have indexed : caches.workers.Indexed := cached ▸ Store.indexed_replay ws
    refine ⟨_, fun k => Wiring.mem_keys_clusters_iff indexed changed, rfl, fun open_ k => ?_⟩
    exact (tidy.pending_addAll open_ _ k).trans (if_congr OrderedSet.mem_elements rfl rfl)
  · have none_ : (Wiring.clusters false backend).keys caches e = ∅ :=
      Wiring.keys_clusters_of_same he same
    show (OrderedMap.size _, q.addAll (OrderedSet.elements _)) = (0, q)
    rw [none_]
    rfl

/-- A cluster recovers while one of its workers is being processed and another is in line. Both are
to be handed out once afterwards. A worker at another backend and one of another namespace are
not. -/
theorem fans_out_recovered :
    let a := Trial.Fixture.worker "tenant" "a" default
    let b := Trial.Fixture.worker "tenant" "b" default
    let typed (w : Worker) : Worker := { w with spec := { w.spec with backend := "aws" } }
    let other := typed (Trial.Fixture.worker "tenant" "other" default)
    let foreign := Trial.Fixture.worker "elsewhere" "a" default
    let recovered := Trial.Fixture.cluster "tenant" default .healthy
    let e : Event Cluster := .updated (Trial.Fixture.cluster "tenant" default .failed) recovered
    let ws : List (Event Worker) := [.created a, .created b, .created other, .created foreign]
    let caches : Caches :=
      { (default : Caches) with workers := Store.replay ws, clusters := Store.put ∅ recovered }
    let l : List (Deed Key) := [.add a.key, .ask 0, .add b.key]
    let q := ((Service.opened default).run l).queue
    let handed := (Wiring.clusters false "local").handOver caches e q
    (Service.opened default).Lawful l ∧ handed.1 = 2 ∧
      q.pending a.key = 0 ∧ handed.2.pending a.key = 1 ∧
      q.pending b.key = 1 ∧ handed.2.pending b.key = 1 ∧
      handed.2.pending other.key = 0 ∧ handed.2.pending foreign.key = 0 := by
  intro a b typed other foreign recovered e ws caches l q handed
  have lawful : (Service.opened default).Lawful l := by decide
  have changed (old : Cluster) (he : e.old? = some old) : old.status.phase ≠ .healthy := by
    obtain rfl := Option.some.inj he
    decide
  have up (c : Cluster) (stored : caches.clusters.get? ⟨"", "tenant"⟩ = some c) :
      c.status.phase ≠ .failed := by
    have known : caches.clusters.get? ⟨"", "tenant"⟩ = some recovered := by decide
    obtain rfl := Option.some.inj (known.symm.trans stored)
    decide
  obtain ⟨ks, mem, -, pending⟩ := (fans_out "local" ws caches rfl e default l lawful).1 changed
  have once {w : Worker} (cached : w ∈ caches.workers.list) (tenant : w.metadata.ns = "tenant")
      (typed : w.spec.backend = "local") : handed.2.pending w.key = 1 := by
    have concerned : Wiring.Concerns "local" caches e w := ⟨tenant, typed, tenant ▸ up⟩
    exact (pending (by decide) w.key).trans (if_pos ((mem w.key).mpr ⟨w, cached, rfl, concerned⟩))
  exact ⟨lawful, by decide, by decide, once (by decide) rfl rfl, by decide,
    once (by decide) rfl rfl, by decide, by decide⟩

end PoolControl
