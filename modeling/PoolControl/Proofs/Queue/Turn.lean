import PoolControl.Proofs.Queue.Service

/-! What a deed does to the keys of a queue.

Callers see a queue through three moves: a key is added, asked for, or given back. Delays,
failure counts and waking come down to these or to nothing. `Turn` lists all that a move can
do to the keys of an open queue, and a `Trail` is a sequence of turns. `trail_run` says that
every run leaves a trail, so that what holds along a run can be read off its moves. A dirty
key stays dirty until a caller gets it (`dirty_next`). -/
namespace PoolControl

/-- What callers do to a queue, with the key they get, if they get one. -/
inductive Move (K : Type)
  | add (k : K)
  | get (found : Option K)
  | done (k : K)
deriving DecidableEq

namespace WorkQueue

/-- Where the keys of a queue are. -/
structure Keys (K : Type) [Ord K] where
  ready : List K
  dirty : OrderedSet K
  processing : OrderedSet K

section

variable {K : Type} [Ord K]

def keys (q : WorkQueue K) : Keys K := ⟨q.ready, q.dirty, q.processing⟩

/-- The keys of an open queue that is tidy. -/
structure Keys.Tidy (x : Keys K) : Prop where
  nodup : x.ready.Nodup
  dirty : ∀ k ∈ x.ready, k ∈ x.dirty
  idle : ∀ k ∈ x.ready, k ∉ x.processing
  placed : ∀ k ∈ x.dirty, k ∈ x.ready ∨ k ∈ x.processing

theorem Tidy.keys {q : WorkQueue K} (h : q.Tidy) (hs : q.isShutDown = false) : q.keys.Tidy :=
  ⟨h.nodup, h.dirty, h.idle, h.placed hs⟩

end

variable {K : Type} [Ord K] [Std.TransOrd K] [Std.LawfulEqOrd K]

/-- What a move does to the keys of an open queue. -/
inductive Turn : Keys K → Option (Move K) → Keys K → Prop
  | quiet {x} : Turn x none x
  /-- The key is to be handed out anyway. -/
  | repeated {x k} (again : k ∈ x.dirty) : Turn x (some (.add k)) x
  | marked {x k} (new : k ∉ x.dirty) (held : k ∈ x.processing) :
      Turn x (some (.add k)) { x with dirty := x.dirty.add k }
  | queued {x k} (new : k ∉ x.dirty) (idle : k ∉ x.processing) :
      Turn x (some (.add k)) { x with ready := x.ready ++ [k], dirty := x.dirty.add k }
  | found {x k rest} (ready : x.ready = k :: rest) :
      Turn x (some (.get (some k))) ⟨rest, x.dirty.erase k, x.processing.add k⟩
  | nothing {x} (empty : x.ready = []) : Turn x (some (.get none)) x
  | settled {x k} (held : k ∈ x.processing) (clean : k ∉ x.dirty) :
      Turn x (some (.done k)) { x with processing := x.processing.erase k }
  | requeued {x k} (held : k ∈ x.processing) (again : k ∈ x.dirty) :
      Turn x (some (.done k))
        { x with ready := x.ready ++ [k], processing := x.processing.erase k }

/-- Turns of tidy keys, one after the other, with the moves that are made. -/
inductive Trail : Keys K → List (Move K) → Keys K → Prop
  | stay {x} (tidy : x.Tidy) : Trail x [] x
  | go {x y z m ms} (tidy : x.Tidy) (turn : Turn x m y) (rest : Trail y ms z) :
      Trail x (m.toList ++ ms) z

theorem Trail.tidy {x z : Keys K} {ms : List (Move K)} (h : Trail x ms z) : x.Tidy ∧ z.Tidy := by
  induction h with
  | stay tidy => exact ⟨tidy, tidy⟩
  | go tidy _ _ ih => exact ⟨tidy, ih.2⟩

variable {q : WorkQueue K} {k : K}

theorem turn_add (hs : q.isShutDown = false) (k : K) :
    Turn q.keys (some (.add k)) (q.add k).keys := by
  by_cases hd : k ∈ q.dirty
  · rw [add_of_dirty hd]
    exact .repeated hd
  · by_cases hp : k ∈ q.processing
    · rw [add_of_processing hs hd hp]
      exact .marked hd hp
    · rw [add_of_idle hs hd hp]
      exact .queued hd hp

theorem turn_addAfter (hs : q.isShutDown = false) (now : Instant) (k : K) (d : Duration) :
    Turn q.keys (if d.isZero then some (.add k) else none) (q.addAfter now k d).1.keys := by
  unfold addAfter
  split
  · exact turn_add hs k
  · split
    · exact .quiet
    · split <;> exact .quiet

omit [Std.TransOrd K] [Std.LawfulEqOrd K] in
theorem keys_expire [DecidableEq K] (q : WorkQueue K) (k : K) (t : Instant) :
    (q.expire k t).keys = q.keys := by
  obtain ⟨_, _, _, he⟩ := expire_eq q k t
  rw [he]
  rfl

theorem turn_deliver [DecidableEq K] (hs : q.isShutDown = false) (k : K) :
    Turn q.keys (some (.add k)) (q.deliver k).keys :=
  turn_add (q := { q with due := q.due.erase k }) hs k

/-- The key that a caller is handed, if it is handed one. -/
def Found.key? : Found K → Option K
  | .key k => some k
  | _ => none

theorem turn_ask (hs : q.isShutDown = false) (c : Nat) :
    Turn q.keys (some (.get (q.ask c).1.key?)) (q.ask c).2.keys := by
  obtain ⟨b, he⟩ := ask_eq q c
  rw [he]
  cases hr : q.ready with
  | nil =>
    rw [take_of_nil hs hr]
    exact .nothing hr
  | cons k rest =>
    rw [take_of_cons hs hr]
    exact .found hr

theorem turn_done (hs : q.isShutDown = false) (held : k ∈ q.processing) :
    Turn q.keys (some (.done k)) (q.done k).keys := by
  rcases done_cases q k with ⟨hn, he⟩ | ⟨-, again, he⟩
  · have clean : k ∉ q.dirty := hn.resolve_left (by rw [hs]; exact Bool.false_ne_true)
    rw [he]
    exact .settled held clean
  · rw [he]
    exact .requeued held again

end WorkQueue

namespace Service

open WorkQueue (Turn)

variable {K : Type} [Ord K] [Std.TransOrd K] [Std.LawfulEqOrd K]

/-- The move that a deed comes to. -/
def move? (s : Service K) : Deed K → Option (Move K)
  | .add k => some (.add k)
  | .addAfter k d => if d.isZero then some (.add k) else none
  | .addRateLimited k => if (s.queue.backoff.nextDelay k).isZero then some (.add k) else none
  | .deliver k => some (.add k)
  | .ask c => some (.get (s.queue.ask c).1.key?)
  | .askAgain c => some (.get (s.queue.askAgain c).1.key?)
  | .done _ k => some (.done k)
  | _ => none

variable [DecidableEq K]

/-- The moves of a run. -/
def moves (s : Service K) : List (Deed K) → List (Move K)
  | [] => []
  | a :: rest => (s.move? a).toList ++ moves (s.next a) rest

/-- **Every deed takes a turn.** -/
theorem turn_next {s : Service K} (h : s.Orderly) (hs : s.queue.isShutDown = false) {a : Deed K}
    (ha : s.Allows a) (open_ : a ≠ .shutDown) :
    Turn s.queue.keys (s.move? a) (s.next a).queue.keys := by
  cases a with
  | add k => exact WorkQueue.turn_add hs k
  | addAfter k d => exact WorkQueue.turn_addAfter hs s.now k d
  | addRateLimited k =>
    exact WorkQueue.turn_addAfter (q := { s.queue with backoff := s.queue.backoff.fail k }) hs
      s.now k (s.queue.backoff.nextDelay k)
  | expire k t =>
    show Turn _ none (s.queue.expire k t).keys
    rw [WorkQueue.keys_expire]
    exact .quiet
  | deliver k => exact WorkQueue.turn_deliver hs k
  | ask c =>
    show Turn _ _ (s.receive c (s.queue.ask c)).queue.keys
    rw [queue_receive]
    exact WorkQueue.turn_ask hs c
  | askAgain c =>
    show Turn _ _ (s.receive c (s.queue.askAgain c)).queue.keys
    rw [queue_receive]
    exact WorkQueue.turn_ask (q := { s.queue with bell := s.queue.bell.resume c }) hs c
  | done c k => exact WorkQueue.turn_done hs ((h.held k).mpr ⟨c, ha⟩)
  | shutDown => exact absurd rfl open_
  | _ => exact .quiet

/-- **Every run leaves a trail**, as long as the queue is open. -/
theorem trail_run {s : Service K} (h : s.Orderly) (hs : s.queue.isShutDown = false)
    {l : List (Deed K)} (hl : s.Lawful l) (open_ : .shutDown ∉ l) :
    WorkQueue.Trail s.queue.keys (s.moves l) (s.run l).queue.keys := by
  induction l generalizing s with
  | nil => exact .stay (h.tidy.keys hs)
  | cons a rest ih =>
    obtain ⟨ha, hrest⟩ := not_or.mp (fun h => open_ (List.mem_cons.mpr h))
    exact .go (h.tidy.keys hs) (turn_next h hs hl.1 (Ne.symm ha))
      (ih (h.next hl.1) ((isShutDown_next s (Ne.symm ha)).trans hs) hl.2 hrest)

/-! ### Until a caller gets it -/

omit [DecidableEq K] in
/-- A key that is got is handed to a caller. -/
theorem hands_of_move {s : Service K} {a : Deed K} {k : K}
    (h : s.move? a = some (.get (some k))) : ∃ c, s.hands? a = some (c, k) := by
  have key {f : WorkQueue.Found K} (hf : f.key? = some k) : f = .key k := by
    cases f with
    | key k' => rw [Option.some.inj hf]
    | nothing => cases hf
    | shutDown => cases hf
  cases a with
  | ask c =>
    have found := key (Move.get.inj (Option.some.inj h))
    exact ⟨c, by simp only [hands?, found]⟩
  | askAgain c =>
    have found := key (Move.get.inj (Option.some.inj h))
    exact ⟨c, by simp only [hands?, found]⟩
  | addAfter k' d =>
    simp only [move?] at h
    split at h <;> cases h
  | addRateLimited k' =>
    simp only [move?] at h
    split at h <;> cases h
  | _ => cases h

/-- A dirty key stays dirty unless a caller gets it. -/
theorem dirty_next {s : Service K} (h : s.Orderly) (hs : s.queue.isShutDown = false) {a : Deed K}
    (ha : s.Allows a) (open_ : a ≠ .shutDown) {k : K} (hk : k ∈ s.queue.dirty) :
    k ∈ (s.next a).queue.dirty ∨ ∃ c, s.hands? a = some (c, k) := by
  have turn := turn_next h hs ha open_
  generalize hm : s.move? a = m at turn
  generalize hx : s.queue.keys = x at turn
  generalize hy : (s.next a).queue.keys = y at turn
  have dirty : k ∈ x.dirty := hx ▸ hk
  show k ∈ (s.next a).queue.keys.dirty ∨ _
  rw [hy]
  cases turn with
  | quiet | repeated | nothing | settled | requeued => exact .inl dirty
  | marked | queued => exact .inl (OrderedSet.mem_add.mpr (.inr dirty))
  | @found k' rest ready =>
    by_cases hk : k = k'
    · exact .inr (hands_of_move (hk ▸ hm))
    · exact .inl (OrderedSet.mem_erase.mpr ⟨hk, dirty⟩)

end Service

end PoolControl
