import PoolControl.Proofs.Routing.Dependents
import PoolControl.Proofs.Routing.Relay
import PoolControl.Routing.Wiring

/-! Which keys the events of workers and clusters queue.

The event of a worker queues its key if the worker is at the backend, its cluster is not
failed, and the event is not an update that leaves the loop nothing to do. The event of a
cluster queues the workers at the backend in its namespace, if the cluster is not failed by
the time of the dispatch, unless the event is an update that left the phase as it was. So
the end of a failure comes to every worker that was left alone because of it.

`keeps_composed` says which worker events pass, and that joining predicates means that all
of them have to let an event pass. -/
namespace PoolControl

variable {ignoreRequests : Bool} {backend : String} {cs : Store Cluster} {caches : Caches} {k : Key}

/-! ### Joined predicates -/

namespace Predicate

section

variable {K : Type} [Resource K]

theorem keepsAll_append (cs : Store Cluster) (e : Event K) (ps qs : List Predicate) :
    keepsAll cs e (ps ++ qs) = (keepsAll cs e ps && keepsAll cs e qs) := by
  induction ps with
  | nil => simp [keepsAll]
  | cons p ps ih => simp [keepsAll, ih, Bool.and_assoc]

/-- Two predicates that are joined let pass what both let pass, however the first is built. -/
theorem keeps_and (cs : Store Cluster) (e : Event K) (p q : Predicate) :
    (p.and q).keeps cs e = (p.keeps cs e && q.keeps cs e) := by
  cases p with
  | all ps => simp [Predicate.and, keeps, keepsAll_append, keepsAll]
  | always => simp [Predicate.and, keeps]
  | _ => simp [Predicate.and, keeps, keepsAll]

/-- The test for operations that did not succeed decides nothing: it lets no update pass, and
other events pass the test for a request anyway. -/
theorem keeps_trigger_requests (cs : Store Cluster) (e : Event K) :
    (trigger false).keeps cs e = (any [.requested, .deleting]).keeps cs e := by
  cases e <;> simp [trigger, keeps, keepsAny]

end

end Predicate

/-! ### Workers -/

namespace Predicate

/-- Events other than updates always trigger the main loop. -/
theorem keeps_trigger {K : Type} [Resource K] {e : Event K} (he : e.old? = none) :
    (trigger ignoreRequests).keeps cs e = true := by
  cases e with
  | updated => cases he
  | _ => cases ignoreRequests <;> rfl

/-- What the main loop looks at in the event of a worker. -/
theorem keeps_worker_iff (e : Event Worker) :
    (Wiring.workerPredicate ignoreRequests backend).keeps cs e = true ↔
      clusterFailed cs e.object.metadata = false ∧
        (trigger ignoreRequests).keeps cs e = true ∧ e.object.spec.backend = backend := by
  have tree : Wiring.workerPredicate ignoreRequests backend =
      .all [.clusterNotFailed, trigger ignoreRequests, .hasBackend backend] := rfl
  have up : (clusterNotFailed).keeps cs e = true ↔ clusterFailed cs e.object.metadata = false :=
    Bool.not_eq_true' _ ▸ Iff.rfl
  have typed : (Predicate.hasBackend backend).keeps cs e = true ↔
      e.object.spec.backend = backend :=
    beq_iff_eq.trans Option.some_inj
  rw [tree, keeps, keepsAll, keepsAll, keepsAll, keepsAll, Bool.and_true, Bool.and_eq_true,
    Bool.and_eq_true, up, typed]

/-- Which workers the event of a cluster is for. -/
theorem keepsObject_worker_iff (w : Worker) :
    (Wiring.workerPredicate ignoreRequests backend).keepsObject cs w = true ↔
      clusterFailed cs w.metadata = false ∧ w.spec.backend = backend := by
  refine (keeps_worker_iff (.generic w)).trans (and_congr_right fun _ => ?_)
  exact and_iff_right (keeps_trigger rfl)

/-- A cluster that is there and not failed lets its workers pass. -/
theorem clusterFailed_iff (m : Metadata) :
    clusterFailed cs m = true ↔ ∃ c, cs.get? (Cluster.keyOf m.ns) = some c ∧ c.isFailed = true := by
  unfold clusterFailed
  cases cs.get? (Cluster.keyOf m.ns) with
  | none => exact iff_of_false Bool.false_ne_true fun ⟨_, none_, _⟩ => by cases none_
  | some c =>
    refine ⟨fun failed => ⟨c, rfl, failed⟩, fun ⟨_, same, failed⟩ => ?_⟩
    exact Option.some.inj same ▸ failed

theorem clusterFailed_eq_false_iff {m : Metadata} :
    clusterFailed cs m = false ↔
      ∀ c, cs.get? (Cluster.keyOf m.ns) = some c → c.status.phase ≠ .failed := by
  rw [Bool.eq_false_iff, Ne, clusterFailed_iff]
  simp only [Cluster.isFailed, decide_eq_true_iff, not_exists, not_and, ne_eq]

/-- What an update has to change or bring to trigger the main loop. -/
theorem keeps_trigger_iff (e : Event Worker) :
    (trigger ignoreRequests).keeps cs e = true ↔
      e.old? = none ∨
        if ignoreRequests then
          ∃ old ∈ e.old?, old.metadata.generation ≠ e.object.metadata.generation
        else
          e.object.metadata.request?.isSome = true ∨
            ∃ old ∈ e.old?, old.metadata.isDeleting = false ∧
              e.object.metadata.isDeleting = true := by
  cases e with
  | updated old new =>
    cases ignoreRequests with
    | true => simp [trigger, keeps, Event.old?, Event.object, Resource.metadata]
    | false =>
      rw [keeps_trigger_requests]
      simp [keeps, keepsAny, Event.old?, Event.object, Resource.metadata]
  | _ => exact iff_of_true (keeps_trigger rfl) (.inl rfl)

/-- **Which worker events come to the main loop.** The worker is at the backend, no failed cluster
is stored for its namespace, and the event is not an update, or it is one that the setting lets
through: a change of the generation, or else a request or the start of a deletion. Operations that
did not succeed make no difference. Joined predicates of any shape let pass what each of them
lets pass. -/
theorem keeps_composed (ignoreRequests : Bool) (clusters : Store Cluster) (backend : String)
    (e : Event Worker) :
    (((primary ignoreRequests).atBackend backend).keeps clusters e = true ↔
      e.object.spec.backend = backend ∧
        (∀ c, clusters.get? (Cluster.keyOf e.object.metadata.ns) = some c →
          c.status.phase ≠ .failed) ∧
        (e.old? = none ∨
          if ignoreRequests then
            ∃ old ∈ e.old?, old.metadata.generation ≠ e.object.metadata.generation
          else
            e.object.metadata.request?.isSome = true ∨
              ∃ old ∈ e.old?, old.metadata.isDeleting = false ∧
                e.object.metadata.isDeleting = true)) ∧
      ((primary false).atBackend backend).keeps clusters e =
        ((all [.clusterNotFailed, .any [.requested, .deleting]]).atBackend backend).keeps
          clusters e ∧
      ∀ {K : Type} [Resource K] (p q r : Predicate) (e : Event K),
        ((p.and q).and r).keeps clusters e =
          (p.keeps clusters e && q.keeps clusters e && r.keeps clusters e) := by
  refine ⟨?_, ?_, fun p q r e => ?_⟩
  · rw [← @keeps_trigger_iff _ clusters, ← clusterFailed_eq_false_iff]
    refine (keeps_worker_iff e).trans ?_
    exact ⟨fun ⟨up, fresh, typed⟩ => ⟨typed, up, fresh⟩,
      fun ⟨typed, up, fresh⟩ => ⟨up, fresh, typed⟩⟩
  · rw [atBackend, atBackend, keeps_and, keeps_and]
    simp only [primary, keeps, keepsAll, keeps_trigger_requests]
  · rw [keeps_and, keeps_and]

end Predicate

namespace Wiring

/-- The keys that the event of a worker queues. -/
theorem mem_keys_workers (e : Event Worker) :
    k ∈ (workers ignoreRequests backend).keys caches e ↔
      (workerPredicate ignoreRequests backend).keeps caches.clusters e = true ∧ k = e.key := by
  refine (Dispatcher.mem_keys_of_ok rfl).trans (and_congr_right fun _ => ?_)
  exact OrderedSet.mem_single

end Wiring

/-! ### Clusters -/

/-- The event of a cluster counts unless it is an update that left the phase as it was. -/
theorem Predicate.keeps_clusterChanges :
    clusterChanges.Keeps fun old new : Cluster => old.status.phase ≠ new.status.phase := by
  refine .of_updates keeps_clusterChanges_updated fun cs e he => ?_
  cases e with
  | updated => cases he
  | _ => rfl

/-- The objects of a namespace are stored there. -/
theorem Store.mem_inNamespace {s : Store Worker} {ns : String} {w : Worker} :
    w ∈ s.inNamespace ns ↔ ∃ k, k.ns = ns ∧ s.get? k = some w := by
  simp only [inNamespace, List.mem_map, List.mem_filter, beq_iff_eq, Prod.exists, exists_eq_right,
    get?, OrderedMap.get?_eq_some_iff]
  exact exists_congr fun k => and_comm

/-- The keys that the event of a cluster queues. -/
theorem Wiring.mem_keys_clusters (keyed : ∀ k w, caches.workers.get? k = some w → w.key = k)
    (e : Event Cluster) :
    k ∈ (clusters ignoreRequests backend).keys caches e ↔
      Predicate.clusterChanges.keeps caches.clusters e = true ∧ k.ns = e.object.metadata.name ∧
        ∃ w, caches.workers.get? k = some w ∧
          (workerPredicate ignoreRequests backend).keepsObject caches.clusters w = true := by
  have mapped : ∃ ks, (clusters ignoreRequests backend).handler.keys caches e = .ok ks ∧
      (k ∈ ks ↔ k.ns = e.object.metadata.name ∧ ∃ w, caches.workers.get? k = some w ∧
        (workerPredicate ignoreRequests backend).keepsObject caches.clusters w = true) := by
    refine ⟨_, rfl, OrderedSet.mem_ofElements.trans ?_⟩
    simp only [List.mem_map, List.mem_filter, Store.mem_inNamespace]
    constructor
    · rintro ⟨w, ⟨⟨k', ns, found⟩, passes⟩, rfl⟩
      obtain rfl : w.key = k' := keyed k' w found
      exact ⟨ns, w, found, passes⟩
    · rintro ⟨ns, w, found, passes⟩
      exact ⟨w, ⟨⟨k, ns, found⟩, passes⟩, keyed k w found⟩
  obtain ⟨ks, he, mem⟩ := mapped
  exact (Dispatcher.mem_keys_of_ok he).trans (and_congr_right fun _ => mem)

end PoolControl
