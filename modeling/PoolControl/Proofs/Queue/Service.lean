import Mathlib.Data.List.Nodup
import PoolControl.Proofs.Queue.Placement
import PoolControl.Proofs.System

/-! A queue in service.

Any number of callers use a queue while time passes. A `Deed` is one thing that happens to
the queue between two lockings of it, so every interleaving of callers is a list of deeds.
A timer takes two deeds: first it goes off, which withdraws its deadline, and later, with
other deeds in between, its key is added. A caller gives back only keys that it was handed
and did not give back since (`Allows`); nothing else is asked of callers.

`held_by_one` says that the queue stays tidy whatever happens, before and after it is shut
down, and that a key which was handed out is not handed out again before the caller that
has it gave it back. -/
namespace PoolControl

/-- A queue with those it serves. -/
structure Service (K : Type) [Ord K] where
  now : Instant
  queue : WorkQueue K
  /-- The keys handed out and not given back, each with its caller. -/
  held : List (Nat × K)

/-- What may happen to a queue. Callers are numbered. -/
inductive Deed (K : Type)
  | pass (time : Nat)
  | add (k : K)
  | addAfter (k : K) (d : Duration)
  | addRateLimited (k : K)
  | forget (k : K)
  /-- A timer goes off. -/
  | expire (k : K) (t : Instant)
  /-- The key of a timer that went off is added. -/
  | deliver (k : K)
  | ask (c : Nat)
  | askAgain (c : Nat)
  | giveUp (c : Nat)
  | done (c : Nat) (k : K)
  | shutDown
deriving DecidableEq

namespace Service

variable {K : Type} [Ord K]

/-- An empty queue and nobody there. -/
def opened (p : Backoff.Policy) : Service K := ⟨0, .new p, []⟩

/-- When a deed can happen. -/
def Allows (s : Service K) : Deed K → Prop
  | .expire k t => (k, t) ∈ s.queue.timers ∧ t ≤ s.now
  | .deliver k => k ∈ s.queue.due
  | .ask c => c ∉ s.queue.bell.waiting ∧ s.queue.bell.isWoken c = false
  | .askAgain c => s.queue.bell.isWoken c = true
  | .giveUp c => c ∈ s.queue.bell.waiting ∨ s.queue.bell.isWoken c = true
  | .done c k => (c, k) ∈ s.held
  | _ => True

instance [DecidableEq K] (s : Service K) : DecidablePred s.Allows := fun a => by
  cases a <;> simp only [Allows] <;> infer_instance

/-- A caller takes the queue's answer. -/
def receive (s : Service K) (c : Nat) : WorkQueue.Found K × WorkQueue K → Service K
  | (.key k, q) => { s with queue := q, held := (c, k) :: s.held }
  | (_, q) => { s with queue := q }

/-! ### Order -/

/-- A queue that is in order, with every key in process in the hands of one caller. -/
structure Orderly (s : Service K) : Prop where
  tidy : s.queue.Tidy
  held : ∀ k, k ∈ s.queue.processing ↔ ∃ c, (c, k) ∈ s.held
  single : (s.held.map (·.2)).Nodup

theorem orderly_opened (p : Backoff.Policy) : (opened p : Service K).Orderly :=
  ⟨WorkQueue.tidy_new p, fun _ => ⟨fun h => (by cases h), fun ⟨_, h⟩ => (by cases h)⟩,
    List.nodup_nil⟩

/-- As long as nothing is handed over, only the queue has to be looked at. -/
theorem Orderly.of_tidy {s s' : Service K} (h : s.Orderly) (ht : s'.queue.Tidy)
    (hp : s'.queue.processing = s.queue.processing) (hh : s'.held = s.held) : s'.Orderly := by
  refine ⟨ht, ?_, ?_⟩
  · rw [hp, hh]
    exact h.held
  · rw [hh]
    exact h.single

/-- Whoever has a key has it alone. -/
theorem Orderly.holder_unique {s : Service K} (h : s.Orderly) {c c' : Nat} {k : K}
    (hc : (c, k) ∈ s.held) (hc' : (c', k) ∈ s.held) : c = c' :=
  congrArg Prod.fst (List.inj_on_of_nodup_map h.single hc hc' rfl)

/-! ### Runs -/

variable [Std.TransOrd K] [Std.LawfulEqOrd K] [DecidableEq K]

/-- What a deed makes of the service. -/
def next (s : Service K) : Deed K → Service K
  | .pass time => { s with now := s.now + time }
  | .add k => { s with queue := s.queue.add k }
  | .addAfter k d => { s with queue := (s.queue.addAfter s.now k d).1 }
  | .addRateLimited k => { s with queue := (s.queue.addRateLimited s.now k).1 }
  | .forget k => { s with queue := s.queue.forget k }
  | .expire k t => { s with queue := s.queue.expire k t }
  | .deliver k => { s with queue := s.queue.deliver k }
  | .ask c => s.receive c (s.queue.ask c)
  | .askAgain c => s.receive c (s.queue.askAgain c)
  | .giveUp c => { s with queue := s.queue.giveUp c }
  | .done c k => { s with queue := s.queue.done k, held := s.held.erase (c, k) }
  | .shutDown => { s with queue := s.queue.shutDown }

/-- The caller that is handed a key by a deed, and the key. -/
def hands? (s : Service K) : Deed K → Option (Nat × K)
  | .ask c =>
    match (s.queue.ask c).1 with
    | .key k => some (c, k)
    | _ => none
  | .askAgain c =>
    match (s.queue.askAgain c).1 with
    | .key k => some (c, k)
    | _ => none
  | _ => none

abbrev system : System (Service K) (Deed K) := ⟨next, Allows⟩

def run (s : Service K) (l : List (Deed K)) : Service K := system.run s l

/-- Every deed of a run can happen when its turn comes. -/
abbrev Lawful (s : Service K) (l : List (Deed K)) : Prop := system.Lawful s l

instance (s : Service K) : DecidablePred (system.Allows s) :=
  inferInstanceAs (DecidablePred s.Allows)

theorem run_append (s : Service K) (a b : List (Deed K)) : s.run (a ++ b) = (s.run a).run b :=
  system.run_append s a b

theorem lawful_append (s : Service K) (a b : List (Deed K)) :
    s.Lawful (a ++ b) ↔ s.Lawful a ∧ (s.run a).Lawful b :=
  system.throughout_append Allows s a b

omit [Std.TransOrd K] [Std.LawfulEqOrd K] [DecidableEq K] in
theorem queue_receive (s : Service K) (c : Nat) (r : WorkQueue.Found K × WorkQueue K) :
    (s.receive c r).queue = r.2 := by
  obtain ⟨f, q⟩ := r
  cases f <;> rfl

omit [Std.TransOrd K] [Std.LawfulEqOrd K] [DecidableEq K] in
theorem now_receive (s : Service K) (c : Nat) (r : WorkQueue.Found K × WorkQueue K) :
    (s.receive c r).now = s.now := by
  obtain ⟨f, q⟩ := r
  cases f <;> rfl

/-- A queue stays open until it is shut down. -/
theorem isShutDown_next (s : Service K) {a : Deed K} (ha : a ≠ .shutDown) :
    (s.next a).queue.isShutDown = s.queue.isShutDown := by
  cases a with
  | add k => exact WorkQueue.isShutDown_add _ k
  | addAfter k d => exact WorkQueue.isShutDown_addAfter _ _ k d
  | addRateLimited k => exact WorkQueue.isShutDown_addAfter _ _ k _
  | expire k t => exact WorkQueue.isShutDown_expire _ k t
  | deliver k => exact WorkQueue.isShutDown_deliver _ k
  | ask c =>
    show (s.receive c _).queue.isShutDown = _
    rw [queue_receive]
    exact WorkQueue.isShutDown_ask _ c
  | askAgain c =>
    show (s.receive c _).queue.isShutDown = _
    rw [queue_receive]
    exact WorkQueue.isShutDown_ask _ c
  | done c k => exact WorkQueue.isShutDown_done _ k
  | shutDown => exact absurd rfl ha
  | _ => rfl

theorem isShutDown_run (s : Service K) {l : List (Deed K)} (hl : .shutDown ∉ l) :
    (s.run l).queue.isShutDown = s.queue.isShutDown :=
  system.run_keeps (I := fun s' => s'.queue.isShutDown = s.queue.isShutDown) rfl fun {_ _} mem h =>
    (isShutDown_next _ (ne_of_mem_of_not_mem mem hl)).trans h

/-! ### Order is kept -/

/-- A key that is taken was in nobody's hands. -/
theorem Orderly.receive {s : Service K} (h : s.Orderly) (c : Nat) (b : Bell) :
    (s.receive c (s.queue.take.1, { s.queue.take.2 with bell := b })).Orderly := by
  have tidy : WorkQueue.Tidy { s.queue.take.2 with bell := b } :=
    h.tidy.take.of_same rfl rfl rfl rfl
  cases hf : s.queue.take.1 with
  | key k =>
    have taken : s.queue.take = (.key k, s.queue.take.2) := Prod.ext hf rfl
    obtain ⟨rest, _, hr, hq⟩ := WorkQueue.take_eq_key taken
    have hp : s.queue.take.2.processing = s.queue.processing.add k := by rw [hq]
    have free : k ∉ s.queue.processing :=
      h.tidy.idle k (by rw [hr]; exact List.mem_cons_self ..)
    refine ⟨tidy, fun x => ?_, ?_⟩
    · show x ∈ s.queue.take.2.processing ↔ ∃ c', (c', x) ∈ (c, k) :: s.held
      rw [hp, OrderedSet.mem_add, h.held x]
      constructor
      · rintro (rfl | ⟨c', hc'⟩)
        · exact ⟨c, List.mem_cons_self ..⟩
        · exact ⟨c', List.mem_cons_of_mem _ hc'⟩
      · rintro ⟨c', hc'⟩
        rcases List.mem_cons.mp hc' with e | hc'
        · exact .inl (congrArg Prod.snd e)
        · exact .inr ⟨c', hc'⟩
    · show (k :: s.held.map (·.2)).Nodup
      refine List.nodup_cons.mpr ⟨fun hk => ?_, h.single⟩
      obtain ⟨⟨c', x⟩, hx, rfl⟩ := List.mem_map.mp hk
      exact free ((h.held x).mpr ⟨c', hx⟩)
  | nothing =>
    have hq := WorkQueue.take_snd_of_ne_key (q := s.queue) (by rw [hf]; simp)
    exact h.of_tidy tidy (by show s.queue.take.2.processing = _; rw [hq]) rfl
  | shutDown =>
    have hq := WorkQueue.take_snd_of_ne_key (q := s.queue) (by rw [hf]; simp)
    exact h.of_tidy tidy (by show s.queue.take.2.processing = _; rw [hq]) rfl

theorem Orderly.ask {s : Service K} (h : s.Orderly) (c : Nat) :
    (s.receive c (s.queue.ask c)).Orderly := by
  obtain ⟨b, he⟩ := WorkQueue.ask_eq s.queue c
  rw [he]
  exact h.receive c b

theorem Orderly.done {s : Service K} (h : s.Orderly) {c : Nat} {k : K} (hc : (c, k) ∈ s.held) :
    (s.next (.done c k)).Orderly := by
  have hp : (s.next (.done c k)).queue.processing = s.queue.processing.erase k :=
    WorkQueue.processing_done s.queue k
  have nodup : s.held.Nodup := List.Nodup.of_map _ h.single
  refine ⟨h.tidy.done ((h.held k).mpr ⟨c, hc⟩), fun x => ?_, ?_⟩
  · show x ∈ (s.next (.done c k)).queue.processing ↔ ∃ c', (c', x) ∈ s.held.erase (c, k)
    rw [hp, OrderedSet.mem_erase, h.held x]
    constructor
    · rintro ⟨hne, c', hc'⟩
      exact ⟨c', (List.mem_erase_of_ne (fun e => hne (congrArg Prod.snd e))).mpr hc'⟩
    · rintro ⟨c', hc'⟩
      have hx := (nodup.mem_erase_iff.mp hc')
      refine ⟨?_, c', hx.2⟩
      rintro rfl
      exact hx.1 (Prod.ext (h.holder_unique hx.2 hc) rfl)
  · exact h.single.sublist (List.erase_sublist.map _)

/-- **Every deed keeps the order.** -/
theorem Orderly.next {s : Service K} (h : s.Orderly) {a : Deed K} (ha : s.Allows a) :
    (s.next a).Orderly := by
  cases a with
  | pass time => exact h.of_tidy h.tidy rfl rfl
  | add k => exact h.of_tidy (h.tidy.add k) (WorkQueue.processing_add _ k) rfl
  | addAfter k d =>
    exact h.of_tidy (h.tidy.addAfter s.now k d) (WorkQueue.processing_addAfter _ _ k d) rfl
  | addRateLimited k =>
    exact h.of_tidy (h.tidy.addRateLimited s.now k) (WorkQueue.processing_addRateLimited _ _ k) rfl
  | forget k => exact h.of_tidy (h.tidy.of_same rfl rfl rfl rfl) rfl rfl
  | expire k t => exact h.of_tidy (h.tidy.expire k t) (WorkQueue.processing_expire _ k t) rfl
  | deliver k => exact h.of_tidy (h.tidy.deliver k) (WorkQueue.processing_deliver _ k) rfl
  | ask c => exact h.ask c
  | askAgain c =>
    have resumed : Orderly { s with queue := { s.queue with bell := s.queue.bell.resume c } } :=
      h.of_tidy (h.tidy.of_same rfl rfl rfl rfl) rfl rfl
    exact resumed.ask c
  | giveUp c => exact h.of_tidy (h.tidy.of_same rfl rfl rfl rfl) rfl rfl
  | done c k => exact h.done ha
  | shutDown => exact h.of_tidy h.tidy.shutDown rfl rfl

theorem Orderly.run {s : Service K} (h : s.Orderly) {l : List (Deed K)} (hl : s.Lawful l) :
    (s.run l).Orderly :=
  hl.keeps (fun h ha => h.next ha) h

/-! ### One caller at a time -/

/-- A caller keeps its key until it gives it back. -/
theorem held_next {s : Service K} {a : Deed K} {c : Nat} {k : K} (h : (c, k) ∈ s.held)
    (ha : a ≠ .done c k) : (c, k) ∈ (s.next a).held := by
  have receive (c' : Nat) (r : WorkQueue.Found K × WorkQueue K) :
      (c, k) ∈ (s.receive c' r).held := by
    obtain ⟨f, q⟩ := r
    cases f with
    | key k' => exact List.mem_cons_of_mem _ h
    | nothing => exact h
    | shutDown => exact h
  cases a with
  | ask c' => exact receive c' _
  | askAgain c' => exact receive c' _
  | done c' k' =>
    refine (List.mem_erase_of_ne fun e => ha ?_).mpr h
    rw [(Prod.mk.inj e).1, (Prod.mk.inj e).2]
  | _ => exact h

theorem held_run {s : Service K} {l : List (Deed K)} {c : Nat} {k : K} (h : (c, k) ∈ s.held)
    (hl : .done c k ∉ l) : (c, k) ∈ (s.run l).held :=
  system.run_keeps (I := fun s => (c, k) ∈ s.held) h fun mem h =>
    held_next h (ne_of_mem_of_not_mem mem hl)

/-- The caller that is handed a key has it. -/
theorem held_of_hands {s : Service K} {a : Deed K} {c : Nat} {k : K}
    (h : s.hands? a = some (c, k)) : (c, k) ∈ (s.next a).held := by
  have receive (c' : Nat) (r : WorkQueue.Found K × WorkQueue K)
      (h : (match r.1 with | .key x => some (c', x) | _ => none) = some (c, k)) :
      (c, k) ∈ (s.receive c' r).held := by
    obtain ⟨f, q⟩ := r
    cases f with
    | key k' =>
      rw [← Option.some.inj h]
      exact List.mem_cons_self ..
    | nothing => cases h
    | shutDown => cases h
  cases a with
  | ask c' => exact receive c' _ h
  | askAgain c' => exact receive c' _ h
  | _ => cases h

omit [DecidableEq K] in
/-- A key is not handed out while a caller has it. -/
theorem Orderly.hands_free {s : Service K} (h : s.Orderly) {a : Deed K} {c c' : Nat} {k : K}
    (ha : s.hands? a = some (c', k)) : (c, k) ∉ s.held := by
  have taken (q : WorkQueue K) (ht : q.Tidy) (hp : q.processing = s.queue.processing)
      (c'' : Nat)
      (hq : (match (q.ask c'').1 with | .key x => some (c'', x) | _ => none) = some (c', k)) :
      (c, k) ∉ s.held := by
    obtain ⟨b, he⟩ := WorkQueue.ask_eq q c''
    rw [he] at hq
    cases hf : q.take.1 with
    | key x =>
      simp only [hf] at hq
      obtain ⟨rest, _, hr, _⟩ := WorkQueue.take_eq_key (Prod.ext hf rfl)
      have hx : x = k := congrArg Prod.snd (Option.some.inj hq)
      have free := ht.idle k (by rw [hr, hx]; exact List.mem_cons_self ..)
      rw [hp] at free
      exact fun hc => free ((h.held k).mpr ⟨c, hc⟩)
    | nothing => simp only [hf] at hq; cases hq
    | shutDown => simp only [hf] at hq; cases hq
  cases a with
  | ask c'' => exact taken s.queue h.tidy rfl c'' ha
  | askAgain c'' =>
    exact taken { s.queue with bell := s.queue.bell.resume c'' } (h.tidy.of_same rfl rfl rfl rfl)
      rfl c'' ha
  | _ => cases ha

/-- **A queue stays tidy, and a key has one holder at a time**: between two deeds that hand
out the same key, the caller that had it first gave it back. -/
theorem held_by_one (p : Backoff.Policy) (l : List (Deed K)) (hl : (opened p).Lawful l) :
    ((opened p).run l).queue.Tidy ∧
      ∀ (before between after : List (Deed K)) (a a' : Deed K) (c c' : Nat) (k : K),
        l = before ++ a :: (between ++ a' :: after) →
        ((opened p).run before).hands? a = some (c, k) →
        ((opened p).run (before ++ a :: between)).hands? a' = some (c', k) →
        .done c k ∈ between := by
  refine ⟨((orderly_opened p).run hl).tidy, ?_⟩
  intro before between after a a' c c' k he ha ha'
  by_contra hn
  have split : l = (before ++ a :: between) ++ a' :: after := by
    rw [he]
    simp only [List.append_assoc, List.cons_append]
  rw [split] at hl
  have orderly := (orderly_opened p).run ((lawful_append _ _ _).mp hl).1
  have held : (c, k) ∈ ((opened p).run (before ++ a :: between)).held := by
    rw [run_append]
    show (c, k) ∈ ((((opened p).run before).next a).run between).held
    exact held_run (held_of_hands ha) hn
  exact orderly.hands_free ha' held

/-- A key added while a caller has it goes to the next caller after it was given back. -/
theorem held_by_one_readded :
    (opened default : Service Nat).Lawful [.add 5, .ask 0, .add 5, .ask 1, .done 0 5, .askAgain 1] ∧
      ((opened default : Service Nat).run [.add 5]).hands? (.ask 0) = some (0, 5) ∧
      ((opened default : Service Nat).run [.add 5, .ask 0, .add 5, .ask 1, .done 0 5]).hands?
        (.askAgain 1) = some (1, 5) ∧
      Deed.done 0 5 ∈ [Deed.add 5, .ask 1, .done 0 5] := by
  have lawful : (opened default : Service Nat).Lawful
      [.add 5, .ask 0, .add 5, .ask 1, .done 0 5, .askAgain 1] := by decide
  exact ⟨lawful, by decide, by decide,
    (held_by_one default _ lawful).2 [.add 5] [.add 5, .ask 1, .done 0 5] [] (.ask 0)
      (.askAgain 1) 0 1 5 rfl (by decide) (by decide)⟩

end Service

end PoolControl
