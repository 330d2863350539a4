import PoolControl.Proofs.Routing.Delivery
import PoolControl.Proofs.Routing.Ownership
import PoolControl.Proofs.Routing.Part

/-! Which changes of dependents are reported.

A write to a machine or a machine set is told as one event, which queues the worker that owns
the new object if the predicate of the watch keeps it. The predicates keep an update that
changed what they look at (`Machine.Changed`, `MachineSet.Changed`), and a report shows no more
than that: the rest of a spec only changes with the generation. So a change that comes to an
owner who keeps the object is never missed.

`queued_iff_reaches` says for every write that changes the report of a worker whether the worker
is queued. It is not if its object was taken away, nor if it got an object by a change of
references alone, as such changes are not looked at and only the new references count. -/
namespace PoolControl

/-! ### What the predicates look at -/

/-- Whether a machine was bound, moved to another phase, or given another spec. -/
def Machine.Changed (old new : Machine) : Prop :=
  old.status.node ≠ new.status.node ∨ old.status.phase ≠ new.status.phase ∨
    old.metadata.generation ≠ new.metadata.generation

/-- Whether a machine set was given another spec. -/
def MachineSet.Changed (old new : MachineSet) : Prop :=
  old.metadata.generation ≠ new.metadata.generation

/-- Whether a predicate keeps an update if and only if it is such a change, and keeps all other
events. -/
def Predicate.Keeps {K : Type} [Resource K] (p : Predicate) (changed : K → K → Prop) : Prop :=
  ∀ (clusters : Store Cluster) (e : Event K),
    p.keeps clusters e = true ↔ ∀ old, e.old? = some old → changed old e.object

theorem Predicate.Keeps.of_updates {K : Type} [Resource K] {p : Predicate} {changed : K → K → Prop}
    (updates : ∀ clusters old new, p.keeps clusters (.updated old new) = true ↔ changed old new)
    (others : ∀ clusters (e : Event K), e.old? = none → p.keeps clusters e = true) :
    p.Keeps changed := by
  intro clusters e
  cases he : e.old? with
  | none => exact iff_of_true (others clusters e he) fun _ h => by cases h
  | some old =>
    cases e with
    | updated x y =>
      cases he
      exact (updates clusters _ y).trans ⟨fun h _ e => Option.some.inj e ▸ h, fun h => h _ rfl⟩
    | _ => cases he

theorem Predicate.keeps_machineChanges : machineChanges.Keeps Machine.Changed := by
  refine .of_updates keeps_machineChanges_updated fun clusters e he => ?_
  cases e with
  | updated => cases he
  | _ => rfl

theorem Predicate.keeps_machineSetChanges : machineSetChanges.Keeps MachineSet.Changed := by
  refine .of_updates (fun clusters old new => ?_) fun clusters e he => ?_
  · simp only [machineSetChanges, keeps, bne_iff_ne]
    rfl
  · cases e with
    | updated => cases he
    | _ => rfl

/-! ### What a write makes of the reports -/

section

variable {K γ : Type} [Resource K] {t : Tracker K} {w : Worker} {f : K → γ}
  {changed : K → K → Prop}

/-- What a store has for a worker under a key after an event. -/
theorem Report.owned_apply (s : Store K) (e : Event K) (w : Worker) (k : Key) :
    owned? (s.apply e) w k =
      if k = e.key then e.left?.filter fun x => w.Owns (Resource.metadata x) else owned? s w k := by
  rw [owned?, Store.get?_apply]
  split <;> rfl

/-- A write that changes what is shown for a worker tells an event that does so. -/
theorem Tracker.Sound.told_of_differs (h : t.Sound) (r : Request K)
    (differs : ¬ ∀ k, (Report.owned? t.store w k).map f =
      (Report.owned? (t.answer r).store w k).map f) :
    ∃ e, t.Tells (t.answer r) [e] ∧ t.store.Admits e ∧
      (Report.owned? t.store w e.key).map f ≠
        (e.left?.filter fun x => w.Owns (Resource.metadata x)).map f := by
  generalize ht : t.answer r = t' at differs
  cases ht ▸ answers h.dated r with
  | silent => exact absurd (fun _ => rfl) differs
  | @told e v admitted =>
    refine ⟨e, tells_publish t v e, admitted, fun same => differs fun k => ?_⟩
    show _ = (Report.owned? (t.store.apply e) w k).map f
    rw [Report.owned_apply]
    split
    · rename_i hk
      rw [hk]
      exact same
    · rfl

/-- Whether an event reaches a worker: it owns the new object, and if it did not own the old
one, the object was changed. -/
def Event.Reaches (changed : K → K → Prop) (w : Worker) (e : Event K) : Prop :=
  w.Owns (Resource.metadata e.object) ∧
    ∀ old, e.old? = some old → w.Owns (Resource.metadata old) ∨ changed old e.object

/-- Whether an update that is no such change shows nothing new. -/
def Covers (changed : K → K → Prop) (f : K → γ) : Prop :=
  ∀ old new, Resource.key old = Resource.key new →
    ((Resource.metadata old).generation = (Resource.metadata new).generation →
      ∃ m, Resource.sameSpec old (Resource.withMetadata new m) = true) →
    ¬ changed old new → f old = f new

/-- An event that changes what is shown for the owner of its object passes if it reaches the
owner. -/
theorem Predicate.Keeps.iff_reaches {p : Predicate} {s : Store K} {e : Event K}
    (keeps : p.Keeps changed) (covers : Covers changed f) (h : s.Indexed)
    (admitted : s.Admits e)
    (differs : (Report.owned? s w e.key).map f ≠
      (e.left?.filter fun x => w.Owns (Resource.metadata x)).map f) (clusters : Store Cluster) :
    (p.keeps clusters e = true ∧ w.Owns (Resource.metadata e.object)) ↔ e.Reaches changed w := by
  rw [keeps clusters e, and_comm]
  refine and_congr_right fun owns => ⟨fun passes old he => .inr (passes old he), ?_⟩
  intro reaches old he
  -- An owner of both sides would see no difference if the predicate did not.
  refine (reaches old he).elim (fun owned => ?_) id
  cases admitted with
  | updated found newer raised =>
    rename_i x y
    obtain rfl := Option.some.inj he
    by_contra same
    have key : Resource.key x = Resource.key y := h.keyed _ x found
    have before : Report.owned? s w (Resource.key y) = some x := by
      rw [Report.owned?, found]
      exact Option.filter_some_pos (decide_eq_true owned)
    have after : (some y).filter (fun x => w.Owns (Resource.metadata x)) = some y :=
      Option.filter_some_pos (decide_eq_true owns)
    refine differs ?_
    show (Report.owned? s w (Resource.key y)).map f = ((some y).filter _).map f
    rw [before, after, Option.map_some, Option.map_some, covers x y key raised same]
  | _ => cases he

/-- An event that changes what is shown for a worker reaches it, if the references stay as they
are. -/
theorem Store.Admits.reaches {s : Store K} {e : Event K} (h : s.Indexed) (admitted : s.Admits e)
    (differs : (Report.owned? s w e.key).map f ≠
      (e.left?.filter fun x => w.Owns (Resource.metadata x)).map f)
    (kept : ∀ x, s.get? e.key = some x →
      (Resource.metadata x).owners = (Resource.metadata e.object).owners) :
    e.Reaches changed w := by
  have owned (x : K) (found : s.get? e.key = some x) :
      w.Owns (Resource.metadata x) ↔ w.Owns (Resource.metadata e.object) := by
    have ns : (Resource.metadata x).ns = (Resource.metadata e.object).ns :=
      congrArg Key.ns (h.keyed _ x found)
    rw [Worker.Owns, Worker.Owns, ns, kept x found]
  have owns : w.Owns (Resource.metadata e.object) := by
    by_contra other
    have before : Report.owned? s w e.key = none := by
      rw [Report.owned?, Option.filter_eq_none_iff]
      exact fun x found => fun owns => other ((owned x found).mp (of_decide_eq_true owns))
    have after : e.left?.filter (fun x => w.Owns (Resource.metadata x)) = none := by
      rw [Option.filter_eq_none_iff]
      intro x left owns
      exact other (Event.object_of_left? left ▸ of_decide_eq_true owns)
    exact differs (by rw [before, after])
  refine ⟨owns, fun old he => .inl ?_⟩
  cases admitted with
  | updated found =>
    obtain rfl := Option.some.inj he
    exact (owned _ found).mpr owns
  | _ => cases he

/-! ### Keys and queues -/

/-- An object with at most one reference is mapped to its owner, if that has a name. -/
theorem Mapping.mem_owner_iff {caches : Caches} {k : Key} {backend : String} {x : K}
    (found : caches.workers.get? k = some w) (key : w.key = k) (typed : w.spec.backend = backend)
    (single : ((Resource.metadata x).ownersOfKind Kind.worker.name).length ≤ 1) :
    (∃ ks, ownerOf Worker (.hasBackend backend) caches x = .ok ks ∧ k ∈ ks) ↔
      w.metadata.name ≠ "" ∧ w.Owns (Resource.metadata x) := by
  subst key
  -- A further reference would be a second one, so what the one that counts means is all that is
  -- owned.
  have only {r : OwnerReference} (counts : Counts (references Worker x) r) :
      w.Owns (Resource.metadata x) ↔ r.LeadsTo (Resource.metadata x).ns w.key w := by
    refine Worker.owns_iff_means.trans ⟨?_, fun leads => ⟨r, counts.mem, leads⟩⟩
    rintro ⟨r', mem, leads⟩
    obtain rfl := (counts.others mem).resolve_right fun h => absurd single (Nat.not_le.mpr h.1)
    exact leads
  have name {r : OwnerReference} (leads : r.LeadsTo (Resource.metadata x).ns w.key w) :
      w.metadata.name = r.name := congrArg Key.name leads.1
  have nothing : ¬ ∃ ks, (.ok ∅ : Except MappingError (OrderedSet Key)) = .ok ks ∧ w.key ∈ ks := by
    rintro ⟨ks, he, mem⟩
    obtain rfl := Except.ok.inj he
    exact OrderedSet.not_mem_empty mem
  generalize hm : ownerOf Worker (.hasBackend backend) caches x = mapped
  cases hm ▸ resolved_ownerOf Worker (.hasBackend backend) caches x with
  | nobody none_ =>
    refine iff_of_false nothing fun ⟨_, owns⟩ => ?_
    obtain ⟨r, mem, -⟩ := Worker.owns_iff_means.mp owns
    rw [show (Resource.metadata x).ownersOfKind Kind.worker.name = [] from none_] at mem
    cases mem
  | ambiguous several => exact absurd single (Nat.not_le.mpr several.1)
  | malformed counts nameless =>
    refine iff_of_false (fun ⟨_, he, _⟩ => by cases he) fun ⟨named, owns⟩ => ?_
    exact named ((name ((only counts).mp owns)).trans nameless)
  | missed counts named lost =>
    refine iff_of_false nothing fun ⟨_, owns⟩ => ?_
    obtain ⟨hk, means⟩ := (only counts).mp owns
    have kept : (Predicate.hasBackend backend).keeps caches.clusters (.generic w) = true := by
      show (some w.spec.backend == some backend) = true
      rw [typed]
      exact beq_self_eq_true _
    exact lost ⟨w, hk ▸ found, OwnerReference.means_iff.mp means, kept⟩
  | @found r counts named finds =>
    obtain ⟨owner, cached, means, -⟩ := finds
    constructor
    · rintro ⟨ks, he, mem⟩
      obtain rfl := Except.ok.inj he
      have hk : w.key = ⟨(Resource.metadata x).ns, r.name⟩ := OrderedSet.mem_single.mp mem
      have same : some owner = some w := by
        rw [← found, hk]
        exact cached.symm
      have leads : r.LeadsTo (Resource.metadata x).ns w.key w :=
        ⟨hk, Option.some.inj same ▸ OwnerReference.means_iff.mpr means⟩
      exact ⟨fun nameless => named ((name leads).symm.trans nameless), (only counts).mpr leads⟩
    · rintro ⟨-, owns⟩
      exact ⟨_, rfl, OrderedSet.mem_single.mpr ((only counts).mp owns).1⟩

/-- Only the new object of an event is mapped. -/
theorem Handler.keys_dependentToWorker (p : Predicate) (caches : Caches) (e : Event K) :
    (dependentToWorker p).keys caches e = Mapping.ownerOf Worker p caches e.object := by
  simp only [dependentToWorker, keys]
  cases Mapping.ownerOf Worker p caches e.object <;> rfl

/-- Dispatching an event queues the owner of its object if the event passes. -/
theorem Dispatcher.mem_dirty_dispatch {p : Predicate} {caches : Caches} {k : Key} {backend : String}
    {e : Event K} {q : WorkQueue Key} (found : caches.workers.get? k = some w) (key : w.key = k)
    (typed : w.spec.backend = backend)
    (single : ((Resource.metadata e.object).ownersOfKind Kind.worker.name).length ≤ 1)
    (open_ : q.isShutDown = false) :
    k ∈ ((⟨p, .dependentToWorker (.hasBackend backend)⟩ : Dispatcher K).dispatch caches e q).dirty ↔
      k ∈ q.dirty ∨ p.keeps caches.clusters e = true ∧ w.metadata.name ≠ "" ∧
        w.Owns (Resource.metadata e.object) := by
  rw [← Mapping.mem_owner_iff found key typed single, dispatch, WorkQueue.mem_dirty_addAll open_,
    OrderedSet.mem_elements, mem_keys_iff]
  dsimp only
  rw [Handler.keys_dependentToWorker]

/-- What becomes of a write that changes what is shown for a worker. -/
theorem Tracker.Sound.queued (h : t.Sound) (r : Request K) {p : Predicate} (keeps : p.Keeps changed)
    (covers : Covers changed f)
    (differs : ¬ ∀ k, (Report.owned? t.store w k).map f =
      (Report.owned? (t.answer r).store w k).map f)
    (caches : Caches) {k : Key} {backend : String} (found : caches.workers.get? k = some w)
    (key : w.key = k) (typed : w.spec.backend = backend) :
    ∃ e, t.Tells (t.answer r) [e] ∧
      ((∀ x, t.get? e.key = some x →
        (Resource.metadata x).owners = (Resource.metadata e.object).owners) →
          e.Reaches changed w) ∧
      (((Resource.metadata e.object).ownersOfKind Kind.worker.name).length ≤ 1 →
        ∀ q : WorkQueue Key, q.isShutDown = false →
          (k ∈ ((⟨p, .dependentToWorker (.hasBackend backend)⟩ : Dispatcher K).dispatch
              caches e q).dirty ↔
            k ∈ q.dirty ∨ w.metadata.name ≠ "" ∧ e.Reaches changed w)) := by
  obtain ⟨e, tells, admitted, changes⟩ := h.told_of_differs r differs
  refine ⟨e, tells, admitted.reaches h.indexed changes, fun single q open_ => ?_⟩
  rw [Dispatcher.mem_dirty_dispatch found key typed single open_, and_left_comm,
    keeps.iff_reaches covers h.indexed admitted changes]

end

/-! ### Writes to dependents -/

theorem Machine.covers_changed : Covers Machine.Changed Machine.shown := by
  intro old new key raised same
  obtain ⟨node, phase, generation⟩ := by simpa only [Machine.Changed, not_or, not_not] using same
  obtain ⟨m, spec⟩ := raised generation
  have name : old.metadata.name = new.metadata.name := congrArg Key.name key
  have spec : old.spec = new.spec := of_decide_eq_true spec
  have status : old.status = new.status := congrArg₂ Machine.Status.mk phase node
  rw [shown, shown, name, spec, status]

theorem MachineSet.covers_changed : Covers MachineSet.Changed MachineSet.shown := by
  intro old new key raised same
  obtain ⟨m, spec⟩ := raised (not_not.mp same)
  have name : old.metadata.name = new.metadata.name := congrArg Key.name key
  have spec : old.spec = new.spec := of_decide_eq_true spec
  rw [shown, shown, name, spec]

namespace Report

/-- The state that the loop makes up for a worker from these caches. -/
def gathered (caches : Caches) (k : Key) (w : Worker) : WorkerState :=
  aggregate (dependents caches.machineSets k w) (dependents caches.machines k w)

/-- Dependents that show the same make up the same state. -/
theorem Alike.gathered_eq {a a' : Api} {k : Key} {w : Worker} (h : a.Sound) (h' : a'.Sound)
    (key : w.key = k) (alike : Alike a w a' w) :
    gathered a.caches k w = gathered a'.caches k w := by
  subst key
  rw [gathered, gathered, aggregate_dependents h, aggregate_dependents h', alike.scan_eq]

end Report

/-- **A write that changes the report of a worker queues it if and only if the news reaches it.**
Any request for a machine or a machine set that changes the state of a worker is told as one
event. It reaches the worker if the references of the object stay as they are, and else if
the worker owns the new object and either owned the old one, or the object was changed. If the
object refers to one worker at most, dispatching the event queues a worker that has a name
exactly if it is reached. -/
theorem queued_iff_reaches (acts : List Api.Act) (backend : String) {k : Key} {w : Worker}
    (found : (Api.empty.run acts).workers.get? k = some w) (typed : w.spec.backend = backend) :
    let a := Api.empty.run acts
    (∀ r : Tracker.Request Machine,
      let a' := { a with machines := a.machines.answer r }
      Report.gathered a.caches k w ≠ Report.gathered a'.caches k w →
        ∃ e, a.machines.Tells a'.machines [e] ∧
          ((∀ x, a.machines.get? e.key = some x →
            x.metadata.owners = e.object.metadata.owners) → e.Reaches Machine.Changed w) ∧
          ((e.object.metadata.ownersOfKind Kind.worker.name).length ≤ 1 →
            ∀ q : WorkQueue Key, q.isShutDown = false →
              (k ∈ ((Wiring.machines backend).dispatch a'.caches e q).dirty ↔
                k ∈ q.dirty ∨ w.metadata.name ≠ "" ∧ e.Reaches Machine.Changed w))) ∧
      ∀ r : Tracker.Request MachineSet,
        let a' := { a with machineSets := a.machineSets.answer r }
        Report.gathered a.caches k w ≠ Report.gathered a'.caches k w →
          ∃ e, a.machineSets.Tells a'.machineSets [e] ∧
            ((∀ x, a.machineSets.get? e.key = some x →
              x.metadata.owners = e.object.metadata.owners) → e.Reaches MachineSet.Changed w) ∧
            ((e.object.metadata.ownersOfKind Kind.worker.name).length ≤ 1 →
              ∀ q : WorkQueue Key, q.isShutDown = false →
                (k ∈ ((Wiring.machineSets backend).dispatch a'.caches e q).dirty ↔
                  k ∈ q.dirty ∨ w.metadata.name ≠ "" ∧ e.Reaches MachineSet.Changed w)) := by
  intro a
  have sound : a.Sound := Api.sound_empty.run acts
  have key : w.key = k := sound.workers.indexed.keyed k w found
  refine ⟨fun r => ?_, fun r => ?_⟩
  · intro a' differs
    have sound' : a'.Sound := sound.next (.machine (.request r))
    refine sound.machines.queued r Predicate.keeps_machineChanges Machine.covers_changed
      (fun same => differs ?_) a'.caches found key typed
    exact Report.Alike.gathered_eq sound sound' key ⟨fun _ => rfl, same⟩
  · intro a' differs
    have sound' : a'.Sound := sound.next (.machineSet (.request r))
    refine sound.machineSets.queued r Predicate.keeps_machineSetChanges MachineSet.covers_changed
      (fun same => differs ?_) a'.caches found key typed
    exact Report.Alike.gathered_eq sound sound' key ⟨same, fun _ => rfl⟩

/-- A worker and a machine of it, with a watcher of machines. -/
def staffed : List Api.Act :=
  let w := Trial.Fixture.worker "tenant" "pool" default
  [.worker (.request (.create default w)), .machine (.watch 0),
    .machine (.request (.create default
      (Trial.Fixture.machine w "set" "machine" default .pending none)))]

/-- A machine that becomes ready queues its worker. -/
theorem queued_iff_reaches_ready :
    let k : Key := ⟨"tenant", "pool"⟩
    let a := Api.empty.run staffed
    let r : Tracker.Request Machine :=
      .modify ⟨"tenant", "machine"⟩ fun x => { x with status := { x.status with phase := .ready } }
    let a' := { a with machines := a.machines.answer r }
    ∃ w e, a.workers.get? k = some w ∧ w.spec.backend = "local" ∧
      Report.gathered a.caches k w ≠ Report.gathered a'.caches k w ∧
      a.machines.Tells a'.machines [e] ∧
      k ∈ ((Wiring.machines "local").dispatch a'.caches e (WorkQueue.new default)).dirty := by
  intro k a r a'
  let w := (a.workers.get? k).get (by decide)
  have found : a.workers.get? k = some w := (Option.some_get _).symm
  have differs : Report.gathered a.caches k w ≠ Report.gathered a'.caches k w := by decide
  obtain ⟨e', tells, kept, queued⟩ :=
    (queued_iff_reaches staffed "local" found (by decide)).1 r differs
  -- The watcher was told the event.
  let e := (a'.machines.pending 0).getLast?.get (by decide)
  have feeds : a.machines.Feeds 0 (a.machines.pending 0) := rfl
  have last : (a'.machines.pending 0).getLast? = some e' := by
    rw [(feeds.tells tells).pending, List.getLast?_concat]
  obtain rfl : e = e' := Option.some.inj ((Option.some_get _).trans last)
  have owners : ((a.machines.get? e.key).all fun x =>
    x.metadata.owners = e.object.metadata.owners) = true := by decide
  have reaches : e.Reaches Machine.Changed w := kept fun x stored => by
    rw [stored] at owners
    exact of_decide_eq_true owners
  exact ⟨w, e, found, by decide, differs, tells,
    (queued (by decide) _ rfl).mpr (.inr ⟨by decide, reaches⟩)⟩

/-- A machine that loses its only reference leaves its worker with a state that is out of date and
not queued. -/
theorem released_not_queued :
    let k : Key := ⟨"tenant", "pool"⟩
    let a := Api.empty.run staffed
    let release (x : Machine) := { x with metadata := { x.metadata with owners := [] } }
    let a' := { a with machines := a.machines.answer (.modify ⟨"tenant", "machine"⟩ release) }
    ∃ w x y, a.workers.get? k = some w ∧ w.spec.backend = "local" ∧
      x.metadata.owners = [Resource.controllerReference w] ∧ y.metadata.owners = [] ∧
      Report.gathered a.caches k w ≠ Report.gathered a'.caches k w ∧
      a.machines.Tells a'.machines [.updated x y] ∧
      k ∉ ((Wiring.machines "local").dispatch a'.caches (.updated x y)
        (WorkQueue.new default)).dirty := by
  intro k a release a'
  let w := (a.workers.get? k).get (by decide)
  let x := (a.machines.get? ⟨"tenant", "machine"⟩).get (by decide)
  let y := Tracker.numbered (a.machines.version + 1) x (Tracker.proposed x release)
  have stored : a.machines.get? ⟨"tenant", "machine"⟩ = some x := (Option.some_get _).symm
  have event : Tracker.writeEvent x y = .updated x y := by decide
  have tells : a.machines.Tells a'.machines [.updated x y] := by
    rcases Tracker.modify_cases stored release with ⟨same, -⟩ | told
    · exact absurd same (by decide)
    · rw [show a'.machines = _ from told, event]
      exact Tracker.tells_publish ..
  exact ⟨w, x, y, (Option.some_get _).symm, by decide, by decide, by decide, by decide, tells,
    by decide⟩

end PoolControl
