import PoolControl.Proofs.Queue.Turn

/-! Keys are served in turn.

A `Roster` is what a queue promises its callers: a line of ready keys, and for every key in
hand whether it was added again meanwhile. It knows nothing of dirty keys, delays or waking.
`serves_in_turn` says that a queue gives the answers of the roster, whatever its callers do,
and what that comes to for a key: it is handed out once for all additions since it was last
handed out, never without one, never forgotten, and after the keys ahead of it. -/
namespace PoolControl

/-- What became of a key in hand since it was handed out. -/
inductive Mark
  | clean
  | readded
deriving DecidableEq

structure Roster (K : Type) [Ord K] where
  /-- The ready keys in order. -/
  line : List K
  /-- The keys in hand. -/
  out : OrderedMap K Mark

namespace Roster

variable {K : Type} [Ord K]

/-- Nothing is ready and nothing in hand. -/
def empty : Roster K := ⟨[], ∅⟩

/-- The answer to a caller that asks for a key. -/
def first? (r : Roster K) : Option K := r.line.head?

/-- Whether an answer is that of the roster. -/
def Answers (r : Roster K) : Move K → Prop
  | .get found => found = r.first?
  | _ => True

variable [Std.TransOrd K] [Std.LawfulEqOrd K] [DecidableEq K]

/-- What a move makes of the roster. A key in hand is marked when it is added, any other
joins the line unless it stands there; a key with a mark joins it when it is given back. -/
def next (r : Roster K) : Move K → Roster K
  | .add k =>
    if (r.out.get? k).isSome then { r with out := r.out.insert k .readded }
    else if k ∈ r.line then r
    else { r with line := r.line ++ [k] }
  | .get _ =>
    match r.line with
    | [] => r
    | k :: rest => ⟨rest, r.out.insert k .clean⟩
  | .done k =>
    if r.out.get? k = some .readded then ⟨r.line ++ [k], r.out.erase k⟩
    else { r with out := r.out.erase k }

/-- All answers are those of the roster. -/
def Follows (r : Roster K) : List (Move K) → Prop
  | [] => True
  | m :: rest => r.Answers m ∧ Follows (r.next m) rest

/-- The roster shows where the keys are: the dirty ones in hand are those that were added
again. -/
structure Mirrors (r : Roster K) (x : WorkQueue.Keys K) : Prop where
  line : r.line = x.ready
  out : ∀ k, r.out.get? k =
    if k ∈ x.processing then some (if k ∈ x.dirty then .readded else .clean) else none

end Roster

/-! ### Laws of turns -/

namespace Move

variable {K : Type} [DecidableEq K]

/-- Whether a key is to be handed out after a move: it was added since it was handed out last. -/
def owedNext (k : K) (owed : Bool) : Move K → Bool
  | .add k' => owed || k' = k
  | .get found => owed && found ≠ some k
  | .done _ => owed

/-- The same after some moves. -/
def owed (k : K) (before : Bool) (ms : List (Move K)) : Bool := ms.foldl (owedNext k) before

theorem owed_append (k : K) (before : Bool) (ms ms' : List (Move K)) :
    owed k before (ms ++ ms') = owed k (owed k before ms) ms' :=
  List.foldl_append

/-- How many additions of a key are the first since it was handed out last. -/
def groups (k : K) (owed : Bool) : List (Move K) → Nat
  | [] => 0
  | m :: rest => (if m = .add k ∧ owed = false then 1 else 0) + groups k (owedNext k owed m) rest

omit [DecidableEq K] in
/-- The answers to callers that ask for a key. -/
def gets (ms : List (Move K)) : List (Option K) :=
  ms.filterMap fun
    | .get found => some found
    | _ => none

omit [DecidableEq K] in
theorem gets_append (ms ms' : List (Move K)) : gets (ms ++ ms') = gets ms ++ gets ms' :=
  List.filterMap_append

omit [DecidableEq K] in
/-- The keys that are handed out. -/
def handed (ms : List (Move K)) : List K := (gets ms).filterMap id

omit [DecidableEq K] in
theorem handed_append (ms ms' : List (Move K)) : handed (ms ++ ms') = handed ms ++ handed ms' := by
  rw [handed, gets_append, List.filterMap_append]
  rfl

/-- If a key is handed out only when it is owed, it is handed out once for every group of
additions, but for the last if it is still owed. -/
theorem count_get (k : K) (b : Bool) (ms : List (Move K))
    (h : ∀ before after, ms = before ++ .get (some k) :: after → owed k b before = true) :
    ms.count (.get (some k)) + (owed k b ms).toNat = groups k b ms + b.toNat := by
  -- A group counts at its first addition, and stays open until the key is handed out.
  induction ms generalizing b with
  | nil =>
    show 0 + b.toNat = 0 + b.toNat
    rfl
  | cons m rest ih =>
    have later := ih (owedNext k b m) fun before after he =>
      h (m :: before) after (congrArg (m :: ·) he)
    have split : owed k b (m :: rest) = owed k (owedNext k b m) rest := rfl
    rw [split, List.count_cons, groups]
    cases m with
    | add k' =>
      have no : ((Move.add k' : Move K) == .get (some k)) = false := by simp
      rw [no]
      by_cases hk : k' = k
      · cases b <;> simp [owedNext, hk] at later ⊢ <;> omega
      · simp [owedNext, hk] at later ⊢
        omega
    | get found =>
      by_cases hf : found = some k
      · subst hf
        have owing : b = true := h [] rest rfl
        simp [owedNext, owing] at later ⊢
        omega
      · simp [owedNext, hf] at later ⊢
        omega
    | done k' =>
      simp [owedNext] at later ⊢
      omega

end Move

namespace WorkQueue

variable {K : Type} [Ord K] [Std.TransOrd K] [Std.LawfulEqOrd K] [DecidableEq K]
  {x y z : Keys K} {m : Option (Move K)} {ms : List (Move K)}

/-- A key is dirty as long as it is owed. -/
theorem Turn.owed (h : Turn x m y) (k : K) :
    Move.owed k (k ∈ x.dirty) m.toList = decide (k ∈ y.dirty) := by
  cases h with
  | quiet | settled | requeued | nothing => simp [Move.owed, Move.owedNext]
  | @repeated k' again =>
    by_cases hk : k' = k
    · subst hk
      simp [Move.owed, Move.owedNext, again]
    · simp [Move.owed, Move.owedNext, hk]
  | marked | queued =>
    simp [Move.owed, Move.owedNext, OrderedSet.mem_add, Bool.or_comm, eq_comm]
  | found ready =>
    simp [Move.owed, Move.owedNext, OrderedSet.mem_erase, Bool.and_comm, eq_comm]

theorem Trail.owed (h : Trail x ms z) (k : K) :
    Move.owed k (k ∈ x.dirty) ms = decide (k ∈ z.dirty) := by
  induction h with
  | stay => rfl
  | go _ turn _ ih => rw [Move.owed_append, turn.owed, ih]

omit [DecidableEq K] in
/-- Every move of a trail is made by a turn of it. -/
theorem Trail.split {before after : List (Move K)} {mv : Move K}
    (h : Trail x (before ++ mv :: after) z) :
    ∃ y y', Trail x before y ∧ Turn y (some mv) y' ∧ Trail y' after z := by
  generalize hm : before ++ mv :: after = ms at h
  induction h generalizing before with
  | stay => simp at hm
  | @go _ _ _ m _ tidy turn rest ih =>
    cases m with
    | none =>
      obtain ⟨y, y', front, here, back⟩ := ih hm
      exact ⟨y, y', .go tidy turn front, here, back⟩
    | some m =>
      cases before with
      | nil =>
        obtain ⟨rfl, rfl⟩ := List.cons.inj hm
        exact ⟨_, _, .stay tidy, turn, rest⟩
      | cons m' before =>
        obtain ⟨rfl, later⟩ := List.cons.inj hm
        obtain ⟨y, y', front, here, back⟩ := ih later
        exact ⟨y, y', .go tidy turn front, here, back⟩

/-- A key is handed out only when it is owed. -/
theorem Trail.owed_of_get {before after : List (Move K)} {k : K}
    (h : Trail x (before ++ .get (some k) :: after) z) :
    Move.owed k (k ∈ x.dirty) before = true := by
  obtain ⟨y, y', front, turn, _⟩ := h.split
  rw [front.owed, decide_eq_true_eq]
  cases turn with
  | found ready => exact front.tidy.2.dirty k (ready ▸ List.mem_cons_self ..)

omit [DecidableEq K] in
/-- A turn leaves the line as it is but for its first key, which it may hand out, and for a
key it may add at the end. -/
theorem Turn.ready (h : Turn x m y) :
    (Move.gets m.toList = [] ∧ ∃ new, y.ready = x.ready ++ new) ∨
      (∃ k, Move.gets m.toList = [some k] ∧ x.ready = k :: y.ready) ∨
      (Move.gets m.toList = [none] ∧ x.ready = [] ∧ y.ready = []) := by
  cases h with
  | quiet | repeated | marked | settled => exact .inl ⟨rfl, [], (List.append_nil _).symm⟩
  | queued | requeued => exact .inl ⟨rfl, _, rfl⟩
  | found ready => exact .inr (.inl ⟨_, rfl, ready⟩)
  | nothing empty => exact .inr (.inr ⟨rfl, empty, empty⟩)

omit [DecidableEq K] in
/-- A key with some keys ahead of it is handed out right after those. -/
theorem Trail.gets_ahead (h : Trail x ms z) {ahead rest : List K} {k : K}
    (ready : x.ready = ahead ++ k :: rest) (enough : ahead.length < (Move.gets ms).length) :
    (Move.gets ms)[ahead.length]? = some (some k) := by
  -- Along the trail only a get shortens what is ahead; all else comes behind the key.
  induction h generalizing ahead rest with
  | stay => exact absurd enough (Nat.not_lt_zero _)
  | @go _ y _ m ms _ turn _ ih =>
    rw [Move.gets_append] at enough ⊢
    rcases turn.ready with ⟨none_, new, hy⟩ | ⟨k', one, hx⟩ | ⟨_, hx, _⟩
    · rw [none_, List.nil_append] at enough ⊢
      have longer := hy
      rw [ready, List.append_assoc, List.cons_append] at longer
      exact ih longer enough
    · rw [one] at enough ⊢
      rw [hx] at ready
      cases ahead with
      | nil =>
        rw [(List.cons.inj ready).1]
        rfl
      | cons k'' ahead => exact ih (List.cons.inj ready).2 (Nat.lt_of_succ_lt_succ enough)
    · rw [hx] at ready
      simp at ready

/-- The keys of a line that become ready by a turn join it behind the others. -/
theorem Turn.order (h : Turn x m y) (tidy : y.Tidy) :
    x.ready ++ y.ready.filter (· ∉ x.ready) = Move.handed m.toList ++ y.ready := by
  rcases h.ready with ⟨none_, new, hy⟩ | ⟨k, one, hx⟩ | ⟨none_, hx, hy⟩
  · have fresh : ∀ k ∈ new, k ∉ x.ready := fun k hk hx =>
      (List.nodup_append.mp (hy ▸ tidy.nodup)).2.2 k hx k hk rfl
    have old : x.ready.filter (· ∉ x.ready) = [] := by simp
    have joined : new.filter (· ∉ x.ready) = new := by simpa using fresh
    rw [Move.handed, none_, hy, List.filter_append, old, joined]
    rfl
  · have left : y.ready.filter (· ∉ x.ready) = [] := by
      rw [hx]
      simp +contextual
    rw [Move.handed, one, left, hx]
    exact List.append_nil _
  · rw [Move.handed, none_, hx, hy]
    rfl

end WorkQueue

/-! ### The roster -/

namespace Roster

open WorkQueue (Keys Turn Trail)

variable {K : Type} [Ord K] [Std.TransOrd K] [Std.LawfulEqOrd K] [DecidableEq K] {r : Roster K}
  {x y z : Keys K}

omit [Std.TransOrd K] [Std.LawfulEqOrd K] [DecidableEq K] in
theorem mirrors_empty : (empty : Roster K).Mirrors ⟨[], ∅, ∅⟩ := ⟨rfl, fun _ => rfl⟩

omit [Std.TransOrd K] [Std.LawfulEqOrd K] [DecidableEq K] in
theorem Mirrors.isSome_out (h : r.Mirrors x) (k : K) :
    (r.out.get? k).isSome = true ↔ k ∈ x.processing := by
  rw [h.out]
  split <;> simp [*]

omit [Std.TransOrd K] [Std.LawfulEqOrd K] [DecidableEq K] in
theorem Mirrors.readded (h : r.Mirrors x) (k : K) :
    r.out.get? k = some .readded ↔ k ∈ x.processing ∧ k ∈ x.dirty := by
  rw [h.out]
  by_cases hp : k ∈ x.processing <;> by_cases hd : k ∈ x.dirty <;> simp [hp, hd]

/-- **The queue gives the answer of its roster**, and the roster goes on showing where the
keys are. -/
theorem Mirrors.turn {mv : Move K} (h : r.Mirrors x) (tidy : x.Tidy) (turn : Turn x (some mv) y) :
    r.Answers mv ∧ (r.next mv).Mirrors y := by
  cases turn with
  | @repeated k again =>
    refine ⟨trivial, ?_⟩
    -- A dirty key is in hand with a mark, or stands in line: the roster knows of it already.
    by_cases hp : k ∈ x.processing
    · rw [next, if_pos ((h.isSome_out k).mpr hp)]
      refine ⟨h.line, fun k' => ?_⟩
      rw [OrderedMap.get?_insert]
      split
      · rename_i hk
        rw [hk, if_pos hp, if_pos again]
      · exact h.out k'
    · have standing : k ∈ r.line := h.line ▸ (tidy.placed k again).resolve_right hp
      rw [next, if_neg fun e => hp ((h.isSome_out k).mp e), if_pos standing]
      exact h
  | @marked k new held =>
    refine ⟨trivial, ?_⟩
    rw [next, if_pos ((h.isSome_out k).mpr held)]
    refine ⟨h.line, fun k' => ?_⟩
    rw [OrderedMap.get?_insert, h.out]
    by_cases hk : k' = k <;> simp [OrderedSet.mem_add, hk, held]
  | @queued k new idle =>
    refine ⟨trivial, ?_⟩
    have absent : k ∉ r.line := fun e => new (tidy.dirty k (h.line ▸ e))
    rw [next, if_neg fun e => idle ((h.isSome_out k).mp e), if_neg absent]
    refine ⟨congrArg (· ++ [k]) h.line, fun k' => ?_⟩
    show r.out.get? k' = _
    rw [h.out]
    by_cases hk : k' = k <;> simp [OrderedSet.mem_add, hk, idle]
  | @found k rest ready =>
    have first : r.line = k :: rest := h.line.trans ready
    refine ⟨by rw [Answers, first?, first]; rfl, ?_⟩
    simp only [next, first]
    refine ⟨rfl, fun k' => ?_⟩
    rw [OrderedMap.get?_insert, h.out]
    by_cases hk : k' = k <;> simp [OrderedSet.mem_add, OrderedSet.mem_erase, hk]
  | nothing empty =>
    have none_ : r.line = [] := h.line.trans empty
    refine ⟨by rw [Answers, first?, none_]; rfl, ?_⟩
    simp only [next, none_]
    exact h
  | @settled k held clean =>
    refine ⟨trivial, ?_⟩
    rw [next, if_neg fun e => clean ((h.readded k).mp e).2]
    refine ⟨h.line, fun k' => ?_⟩
    rw [OrderedMap.get?_erase, h.out]
    by_cases hk : k' = k <;> simp [OrderedSet.mem_erase, hk]
  | @requeued k held again =>
    refine ⟨trivial, ?_⟩
    rw [next, if_pos ((h.readded k).mpr ⟨held, again⟩)]
    refine ⟨congrArg (· ++ [k]) h.line, fun k' => ?_⟩
    rw [OrderedMap.get?_erase, h.out]
    by_cases hk : k' = k <;> simp [OrderedSet.mem_erase, hk]

/-- Along a trail all answers are those of the roster. -/
theorem Mirrors.trail {ms : List (Move K)} (h : r.Mirrors x) (trail : Trail x ms z) :
    r.Follows ms := by
  induction trail generalizing r with
  | stay => trivial
  | @go _ _ _ m _ tidy turn _ ih =>
    cases m with
    | none =>
      cases turn
      exact ih h
    | some mv =>
      obtain ⟨answers, after⟩ := h.turn tidy turn
      exact ⟨answers, ih after⟩

end Roster

namespace Service

variable {K : Type} [Ord K] [Std.TransOrd K] [Std.LawfulEqOrd K] [DecidableEq K]

/-- The keys that become ready in a run, in order. -/
def readied (s : Service K) : List (Deed K) → List K
  | [] => []
  | a :: rest => (s.next a).queue.ready.filter (· ∉ s.queue.ready) ++ readied (s.next a) rest

/-- Keys are handed out in the order in which they became ready. -/
theorem order_run {s : Service K} (h : s.Orderly) (hs : s.queue.isShutDown = false)
    {l : List (Deed K)} (hl : s.Lawful l) (open_ : .shutDown ∉ l) :
    s.queue.ready ++ s.readied l = Move.handed (s.moves l) ++ (s.run l).queue.ready := by
  induction l generalizing s with
  | nil => exact List.append_nil _
  | cons a rest ih =>
    obtain ⟨ha, hrest⟩ := not_or.mp (fun h => open_ (List.mem_cons.mpr h))
    have still := (isShutDown_next s (Ne.symm ha)).trans hs
    have first := (turn_next h hs hl.1 (Ne.symm ha)).order ((h.next hl.1).tidy.keys still)
    have later := ih (h.next hl.1) still hl.2 hrest
    calc s.queue.ready ++ s.readied (a :: rest)
        = (s.queue.ready ++ (s.next a).queue.ready.filter (· ∉ s.queue.ready)) ++
            (s.next a).readied rest := (List.append_assoc ..).symm
      _ = Move.handed (s.move? a).toList ++
            ((s.next a).queue.ready ++ (s.next a).readied rest) := by
          rw [← List.append_assoc]
          exact congrArg (· ++ _) first
      _ = Move.handed (s.moves (a :: rest)) ++ (s.run (a :: rest)).queue.ready := by
          rw [later, moves, Move.handed_append, List.append_assoc]
          rfl

/-- **A queue serves its keys in turn.** While it is open it gives the answers of its roster.
A key is owed when it was added since it was handed out last: then it is in line or in a
caller's hands, and it joins the line when that caller gives it back. It is handed out only
when it is owed, and once for all the additions it is owed for. Keys are handed out in the
order in which they became ready, and a key in line goes to the first caller that asks after
those who get the keys ahead of it. -/
theorem serves_in_turn (p : Backoff.Policy) (l : List (Deed K)) (hl : (opened p).Lawful l)
    (open_ : .shutDown ∉ l) :
    let s := (opened p).run l
    let ms := (opened p).moves l
    Roster.empty.Follows ms ∧
      (∀ k, Move.owed k false ms = true → k ∈ s.queue.ready ∨ ∃ c, (c, k) ∈ s.held) ∧
      (∀ c k, (c, k) ∈ s.held → k ∉ s.queue.ready ∧ (s.next (.done c k)).queue.ready =
        s.queue.ready ++ if Move.owed k false ms then [k] else []) ∧
      (∀ k before after, ms = before ++ .get (some k) :: after →
        Move.owed k false before = true) ∧
      (∀ k, ms.count (.get (some k)) + (Move.owed k false ms).toNat = Move.groups k false ms) ∧
      (opened p).readied l = Move.handed ms ++ s.queue.ready ∧
      ∀ before after ahead rest k, l = before ++ after →
        ((opened p).run before).queue.ready = ahead ++ k :: rest →
        ahead.length < (Move.gets (((opened p).run before).moves after)).length →
        (Move.gets (((opened p).run before).moves after))[ahead.length]? = some (some k) := by
  intro s ms
  have orderly : s.Orderly := (orderly_opened p).run hl
  have trail := trail_run (orderly_opened p) rfl hl open_
  have tidy : s.queue.keys.Tidy := trail.tidy.2
  have still : s.queue.isShutDown = false := isShutDown_run _ open_
  have dirty (k : K) : Move.owed k false ms = decide (k ∈ s.queue.dirty) := trail.owed k
  have owing (k : K) (before after : List (Move K)) (he : ms = before ++ .get (some k) :: after) :
      Move.owed k false before = true := by
    rw [show (opened p).moves l = _ from he] at trail
    exact trail.owed_of_get
  refine ⟨Roster.mirrors_empty.trail trail, fun k => ?_, fun c k hc => ?_, owing, fun k => ?_,
    order_run (orderly_opened p) rfl hl open_, ?_⟩
  · rw [dirty, decide_eq_true_eq, ← orderly.held]
    exact tidy.placed k
  · have held : k ∈ s.queue.processing := (orderly.held k).mpr ⟨c, hc⟩
    refine ⟨fun ready => tidy.idle k ready held, ?_⟩
    rw [dirty]
    simp only [decide_eq_true_eq]
    exact WorkQueue.ready_done still k
  · have counted := Move.count_get k false ms (owing k)
    rwa [show false.toNat = 0 from rfl, Nat.add_zero] at counted
  · rintro before after ahead rest k rfl ready enough
    rw [lawful_append] at hl
    have front : .shutDown ∉ before := fun h => open_ (List.mem_append_left _ h)
    have back : .shutDown ∉ after := fun h => open_ (List.mem_append_right _ h)
    exact (trail_run ((orderly_opened p).run hl.1) (isShutDown_run _ front) hl.2 back).gets_ahead
      ready enough

/-- A key added twice is handed out once, and once more because it is added again while the
first caller has it. Meanwhile another key gets its turn. -/
theorem serves_in_turn_readded :
    let l : List (Deed Nat) := [.add 5, .add 5, .add 7, .ask 0, .add 5, .ask 1, .done 0 5]
    (opened default).Lawful l ∧ .shutDown ∉ l ∧
      Move.handed ((opened default).moves (l ++ [.ask 0, .done 0 5, .done 1 7, .ask 2])) =
        [5, 7, 5] ∧
      ((opened default).moves l).count (.get (some 5)) + 1 = Move.groups 5 false
        ((opened default).moves l) := by
  intro l
  have lawful : (opened default).Lawful l := by decide
  have open_ : .shutDown ∉ l := by decide
  obtain ⟨_, _, _, _, counted, _⟩ := serves_in_turn default l lawful open_
  exact ⟨lawful, open_, by decide, counted 5⟩

end Service

end PoolControl
