import Mathlib.Logic.Function.Basic
import PoolControl.Proofs.Queue.Bell
import PoolControl.Proofs.Queue.Change

/-! Callers that wait for work.

An operation of the queue holds the lock for a while and rings the bell afterwards. A caller
enrolls with the bell, looks at the queue under the lock, and then either leaves or rests until it
is woken and does the same again. Between any two of these steps others may run. A `Lobby` is a
queue with its callers and with the rings that are owed, and an `Act` is one step. Nothing is asked
of those who add keys and give them back, so every interleaving is a run of a lobby.

`Sound` is what keeps callers from resting for ever. While a caller is blocked, there is for every
ready key a ring that is owed, or a caller that was woken alone and has yet to look; and a queue
that was shut down owes a ring for everybody. A ring is kept as a permit only if nobody waits, and
whoever comes later looks before it rests, so permits need no account.

A service, whose operations nobody interrupts, is a lobby in which no operation is under way:
`reaches_run` plays its runs step by step. -/
namespace PoolControl

/-! ### Lobbies -/

/-- Where a caller is. -/
inductive Seat
  /-- It does not ask for a key, or it is about to. -/
  | away
  /-- It has enrolled and is about to look for a key. -/
  | looking
  /-- It has found nothing. -/
  | resting
  /-- It has its answer and is still enrolled. -/
  | leaving
deriving DecidableEq

namespace WorkQueue

/-- Where a caller is once it has looked. -/
def Found.seat {K : Type} : Found K → Seat
  | .nothing => .resting
  | _ => .leaving

theorem Found.seat_of_ne_nothing {K : Type} {f : Found K} (h : f ≠ .nothing) :
    f.seat = .leaving := by
  cases f with
  | nothing => exact absurd rfl h
  | _ => rfl

theorem Found.seat_ne_away {K : Type} (f : Found K) : f.seat ≠ .away := by
  cases f <;> simp [seat]

end WorkQueue

/-- Where callers are that are not on their way: those that the bell knows of rest. -/
def Bell.seats (b : Bell) (c : Nat) : Seat := if c ∈ b.enrolled then .resting else .away

theorem Bell.seats_of_known {b : Bell} {c : Nat} (h : c ∈ b.enrolled) : b.seats c = .resting :=
  if_pos h

theorem Bell.seats_of_unknown {b : Bell} {c : Nat} (h : c ∉ b.enrolled) : b.seats c = .away :=
  if_neg h

/-- A queue with its callers, while operations are under way. -/
structure Lobby (K : Type) [Ord K] where
  queue : WorkQueue K
  /-- How many changes have still to ring. -/
  rings : Nat
  /-- How often it has still to ring for everybody. -/
  alarms : Nat
  seat : Nat → Seat
  /-- The callers that were woken and have not looked since. -/
  awake : List Nat

namespace Lobby

/-- One step of those who use a queue. -/
inductive Act (K : Type)
  | change (a : Change K)
  | shutDown
  | ring
  | ringAll
  | enroll (c : Nat)
  | look (c : Nat)
  /-- A caller that was woken, or took a permit, goes round again. -/
  | rise (c : Nat)
  /-- A caller leaves with its answer, or gives up. -/
  | leave (c : Nat)
deriving DecidableEq

variable {K : Type} [Ord K]

/-- No operation is under way, and the callers `w` were woken. -/
def calm (q : WorkQueue K) (w : List Nat) : Lobby K := ⟨q, 0, 0, q.bell.seats, w⟩

/-- An empty queue and nobody there. -/
def opened (p : Backoff.Policy) : Lobby K := calm (.new p) []

/-- When a step can be made. -/
def Allows (h : Lobby K) : Act K → Prop
  | .change _ | .shutDown => True
  | .ring => 0 < h.rings
  | .ringAll => 0 < h.alarms
  | .enroll c => h.seat c = .away
  | .look c => h.seat c = .looking
  | .rise c => h.seat c = .resting ∧ c ∉ h.queue.bell.waiting
  | .leave c => h.seat c = .leaving ∨ h.seat c = .resting

instance (h : Lobby K) : DecidablePred h.Allows := fun a => by
  cases a <;> simp only [Allows] <;> infer_instance

/-- The caller rests and was not woken. -/
def Blocked (h : Lobby K) (c : Nat) : Prop := h.seat c = .resting ∧ c ∈ h.queue.bell.waiting

/-- Nobody has still to ring, and no caller that was woken has still to run or to look. -/
structure Quiet (h : Lobby K) : Prop where
  rings : h.rings = 0
  alarms : h.alarms = 0
  woken : h.queue.bell.woken = []
  awake : h.awake = []

/-- A ring that is owed, or a step of a caller that was woken. -/
def Owes (h : Lobby K) : Act K → Prop
  | .change _ | .shutDown => False
  | .ring => 0 < h.rings
  | .ringAll => 0 < h.alarms
  | .enroll c => c ∈ h.awake
  | .look c => h.queue.bell.isWoken c = true ∨ c ∈ h.awake
  | .rise c | .leave c => h.queue.bell.isWoken c = true

/-- The same lobby with another bell. -/
def withBell (h : Lobby K) (b : Bell) : Lobby K := { h with queue := { h.queue with bell := b } }

/-- A caller goes somewhere. -/
def move (h : Lobby K) (c : Nat) (s : Seat) : Lobby K :=
  { h with seat := Function.update h.seat c s }

theorem seat_move_self (h : Lobby K) (c : Nat) (t : Seat) : (h.move c t).seat c = t := by
  simp [move]

theorem seat_move_of_ne (h : Lobby K) (t : Seat) {c x : Nat} (ne : x ≠ c) :
    (h.move c t).seat x = h.seat x := by
  simp [move, ne]

/-- Whoever is blocked after a caller went on is another one. -/
theorem ne_of_blocked_move {h : Lobby K} {c x : Nat} {t : Seat} (ht : t ≠ .resting)
    (blocked : (h.move c t).Blocked x) : x ≠ c := by
  rintro rfl
  exact ht ((seat_move_self h x t).symm.trans blocked.1)

/-! ### What a lobby keeps to -/

/-- What a lobby keeps to. -/
structure Sound (h : Lobby K) : Prop where
  single : h.queue.bell.enrolled.Nodup
  inside : ∀ c ∈ h.queue.bell.enrolled, h.seat c ≠ .away
  once : h.awake.Nodup
  running : ∀ c ∈ h.awake, h.seat c = .away ∨ h.seat c = .looking
  heard : ∀ c, h.Blocked c → h.queue.isShutDown = false →
    h.queue.ready.length ≤ h.rings + h.queue.bell.alone + h.awake.length
  warned : ∀ c, h.Blocked c → h.queue.isShutDown = true → 0 < h.alarms

variable {h : Lobby K} {c x : Nat}

theorem sound_opened (p : Backoff.Policy) : (opened p : Lobby K).Sound := by
  have free (c : Nat) : ¬ (opened p : Lobby K).Blocked c :=
    fun blocked => List.not_mem_nil blocked.2
  exact ⟨List.nodup_nil, fun c known => absurd known List.not_mem_nil, List.nodup_nil,
    fun c awake => absurd awake List.not_mem_nil, fun c blocked => absurd blocked (free c),
    fun c blocked => absurd blocked (free c)⟩

/-- Nobody is blocked in a quiet lobby for a key that is ready, or after a shutdown. -/
theorem Sound.of_quiet (s : h.Sound) (quiet : h.Quiet) (blocked : h.Blocked c) :
    h.queue.ready = [] ∧ h.queue.isShutDown = false := by
  have open_ : h.queue.isShutDown = false := by
    refine eq_false_of_ne_true fun shut => ?_
    exact absurd (s.warned c blocked shut) (by rw [quiet.alarms]; exact Nat.lt_irrefl 0)
  have covered := s.heard c blocked open_
  rw [quiet.rings, quiet.awake, Bell.alone, quiet.woken] at covered
  exact ⟨List.eq_nil_of_length_eq_zero (Nat.le_zero.mp covered), open_⟩

/-- As long as a lobby is not quiet, a ring that is owed or a caller that was woken can go on. -/
theorem Sound.quiet_or_owes (s : h.Sound) : h.Quiet ∨ ∃ a, h.Owes a ∧ h.Allows a := by
  by_cases rings : 0 < h.rings
  · exact .inr ⟨.ring, rings, rings⟩
  by_cases alarms : 0 < h.alarms
  · exact .inr ⟨.ringAll, alarms, alarms⟩
  cases woken : h.queue.bell.woken with
  | cons e rest =>
    have isWoken : h.queue.bell.isWoken e.1 = true := by simp [Bell.isWoken, woken]
    have inside := s.inside e.1 (Bell.mem_enrolled.mpr (.inr isWoken))
    cases seat : h.seat e.1 with
    | away => exact absurd seat inside
    | looking => exact .inr ⟨.look e.1, .inl isWoken, seat⟩
    | resting =>
      exact .inr ⟨.rise e.1, isWoken, seat, Bell.not_waiting_of_woken s.single isWoken⟩
    | leaving => exact .inr ⟨.leave e.1, isWoken, .inl seat⟩
  | nil =>
    cases awake : h.awake with
    | cons c rest =>
      have isAwake : c ∈ h.awake := by simp [awake]
      rcases s.running c isAwake with seat | seat
      · exact .inr ⟨.enroll c, isAwake, seat⟩
      · exact .inr ⟨.look c, .inr isAwake, seat⟩
    | nil => exact .inl ⟨Nat.eq_zero_of_not_pos rings, Nat.eq_zero_of_not_pos alarms, woken, awake⟩

/-- A caller comes or goes and the bell takes note of it: it suffices to look at the bell and at who
is awake. -/
theorem Sound.move (s : h.Sound) {b : Bell} {t : Seat} {w : List Nat}
    (goes : t = .away ∨ t = .looking) (single : b.enrolled.Nodup)
    (self : c ∈ b.enrolled → t ≠ .away)
    (others : ∀ x ∈ b.enrolled, x ≠ c → x ∈ h.queue.bell.enrolled)
    (once : w.Nodup) (runs : ∀ x ∈ w, x ≠ c → x ∈ h.awake)
    (waits : ∀ x ∈ b.waiting, x ≠ c → x ∈ h.queue.bell.waiting)
    (heard : b.waiting ≠ [] → h.queue.bell.alone + h.awake.length ≤ b.alone + w.length) :
    Sound { (h.withBell b).move c t with awake := w } := by
  have here : ((h.withBell b).move c t).seat c = t := seat_move_self ..
  have there {x : Nat} (ne : x ≠ c) : ((h.withBell b).move c t).seat x = h.seat x :=
    seat_move_of_ne _ t ne
  have before {x : Nat} (blocked : ((h.withBell b).move c t).Blocked x) : h.Blocked x := by
    have ne : x ≠ c := ne_of_blocked_move (by rcases goes with rfl | rfl <;> decide) blocked
    exact ⟨(there ne).symm.trans blocked.1, waits x blocked.2 ne⟩
  refine ⟨single, fun x enrolled => ?_, once, fun x awake => ?_, fun x blocked open_ => ?_,
    fun x blocked => s.warned x (before blocked)⟩
  · by_cases same : x = c
    · subst same
      exact here.symm ▸ self enrolled
    · exact (there same).symm ▸ s.inside x (others x enrolled same)
  · by_cases same : x = c
    · subst same
      exact here.symm ▸ goes
    · exact (there same).symm ▸ s.running x (runs x awake same)
  · have covered := s.heard x (before blocked) open_
    have kept := heard (List.ne_nil_of_mem blocked.2)
    simp only [Lobby.move, withBell]
    omega

/-! ### A caller on its way -/

variable {q q' : WorkQueue K} {t : Seat} {w : List Nat}

/-- An operation of the queue leaves callers where they are. -/
theorem calm_congr (known : q'.bell.enrolled.Perm q.bell.enrolled) :
    { calm q w with queue := q' } = calm q' w := by
  have seats : q'.bell.seats = q.bell.seats := funext fun c => by
    simp only [Bell.seats, known.mem_iff]
  unfold calm
  rw [seats]

/-- A lobby that was calm with `q`, but for a caller that is elsewhere by now. -/
def busy (q : WorkQueue K) (c : Nat) (t : Seat) (q' : WorkQueue K) (w : List Nat) : Lobby K :=
  ⟨q', 0, 0, Function.update q.bell.seats c t, w⟩

/-- All is calm again if the bell says where the caller is. -/
theorem busy_eq_calm (self : q'.bell.seats c = t)
    (others : ∀ x, x ≠ c → (x ∈ q'.bell.enrolled ↔ x ∈ q.bell.enrolled)) :
    busy q c t q' w = calm q' w := by
  have seats : Function.update q.bell.seats c t = q'.bell.seats := by
    funext x
    by_cases same : x = c
    · rw [same, Function.update_self, self]
    · simp only [Function.update_of_ne same, Bell.seats, others x same]
  unfold busy calm
  rw [seats]

theorem seat_busy : (busy q c t q' w).seat c = t := Function.update_self ..

theorem busy_of_unknown (unknown : c ∉ q.bell.enrolled) : busy q c .away q w = calm q w :=
  busy_eq_calm (Bell.seats_of_unknown unknown) fun _ _ => Iff.rfl

theorem busy_of_known (known : c ∈ q.bell.enrolled) : busy q c .resting q w = calm q w :=
  busy_eq_calm (Bell.seats_of_known known) fun _ _ => Iff.rfl

/-! ### Steps -/

variable [Std.TransOrd K] [Std.LawfulEqOrd K] [DecidableEq K]

/-- What a step makes of a lobby. -/
def next (h : Lobby K) : Act K → Lobby K
  | .change a =>
    { h with
      queue := { a.apply h.queue with bell := h.queue.bell }
      rings := h.rings + (a.rings h.queue).toNat }
  | .shutDown =>
    { h with
      queue := { h.queue.shutDown with bell := h.queue.bell }
      alarms := h.alarms + 1 }
  | .ring => { h.withBell h.queue.bell.ring with rings := h.rings - 1 }
  | .ringAll => { h.withBell h.queue.bell.ringAll with alarms := h.alarms - 1 }
  | .enroll c => (h.withBell (h.queue.bell.enroll c)).move c .looking
  | .look c =>
    { h.move c h.queue.take.1.seat with
      queue := h.queue.take.2
      awake := h.awake.erase c }
  | .rise c => { (h.withBell (h.queue.bell.resume c)).move c .away with awake := c :: h.awake }
  | .leave c => (h.withBell (h.queue.bell.leave c)).move c .away

abbrev system : System (Lobby K) (Act K) := ⟨next, Allows⟩

def run (h : Lobby K) (l : List (Act K)) : Lobby K := system.run h l

/-- Every step of a run can be made when its turn comes. -/
abbrev Lawful (h : Lobby K) (l : List (Act K)) : Prop := system.Lawful h l

instance (h : Lobby K) : DecidablePred (system.Allows h) := inferInstanceAs (DecidablePred h.Allows)

theorem run_append (h : Lobby K) (a b : List (Act K)) : h.run (a ++ b) = (h.run a).run b :=
  system.run_append h a b

theorem lawful_append (h : Lobby K) (a b : List (Act K)) :
    h.Lawful (a ++ b) ↔ h.Lawful a ∧ (h.run a).Lawful b :=
  system.throughout_append Allows h a b

/-! ### Every step keeps a lobby sound -/

theorem Sound.change (s : h.Sound) (a : Change K) : (h.next (.change a)).Sound := by
  refine ⟨s.single, s.inside, s.once, s.running, fun c blocked open_ => ?_,
    fun c blocked shut => ?_⟩
  · rw [next, Change.isShutDown_apply] at open_
    have before := s.heard c blocked open_
    have grows := Change.length_ready_apply_le h.queue a
    simp only [next]
    omega
  · rw [next, Change.isShutDown_apply] at shut
    exact s.warned c blocked shut

theorem Sound.shutDown (s : h.Sound) : (h.next .shutDown).Sound :=
  ⟨s.single, s.inside, s.once, s.running, fun _ _ open_ => absurd open_ Bool.noConfusion,
    fun _ _ _ => Nat.succ_pos h.alarms⟩

theorem Sound.ring (s : h.Sound) (owed : 0 < h.rings) : (h.next .ring).Sound := by
  have known := Bell.enrolled_ring h.queue.bell
  have before {c : Nat} (blocked : (h.next .ring).Blocked c) : h.Blocked c :=
    ⟨blocked.1, Bell.mem_waiting_of_ring blocked.2⟩
  refine ⟨known.nodup_iff.mpr s.single, fun c enrolled => s.inside c (known.mem_iff.mp enrolled),
    s.once, s.running, fun c blocked open_ => ?_, fun c blocked => s.warned c (before blocked)⟩
  have covered := s.heard c (before blocked) open_
  have woken : (h.next .ring).queue.bell.alone = h.queue.bell.alone + 1 :=
    Bell.alone_ring (List.ne_nil_of_mem (before blocked).2)
  rw [woken]
  simp only [next, withBell]
  omega

theorem Sound.ringAll (s : h.Sound) : (h.next .ringAll).Sound := by
  have known := Bell.enrolled_ringAll h.queue.bell
  have free (c : Nat) : ¬ (h.next .ringAll).Blocked c := fun blocked => List.not_mem_nil blocked.2
  exact ⟨known.nodup_iff.mpr s.single, fun c enrolled => s.inside c (known.mem_iff.mp enrolled),
    s.once, s.running, fun c blocked => absurd blocked (free c),
    fun c blocked => absurd blocked (free c)⟩

theorem Sound.enroll (s : h.Sound) (ha : h.seat c = .away) : (h.next (.enroll c)).Sound := by
  have unknown : c ∉ h.queue.bell.enrolled := fun enrolled => s.inside c enrolled ha
  refine s.move (.inr rfl) ((Bell.enrolled_enroll h.queue.bell c).nodup_iff.mpr ?_)
    (fun _ => by decide) (fun x enrolled ne => ?_) s.once (fun x awake _ => awake)
    (fun x waits ne => (Bell.mem_waiting_of_enroll waits).resolve_right ne) (fun _ => ?_)
  · split
    · exact s.single
    · exact List.nodup_cons.mpr ⟨unknown, s.single⟩
  · exact (Bell.mem_enrolled_enroll.mp enrolled).resolve_left fun new => ne new.2
  · rw [Bell.alone_enroll]
    exact Nat.le_refl _

theorem Sound.rise (s : h.Sound) (ha : h.seat c = .resting) (woken : c ∉ h.queue.bell.waiting) :
    (h.next (.rise c)).Sound := by
  have single : (h.queue.bell.resume c).enrolled.Nodup :=
    Bell.enrolled_resume woken ▸ s.single.filter _
  have asleep : c ∉ h.awake := fun awake => by
    rcases s.running c awake with seat | seat <;> cases ha.symm.trans seat
  refine s.move (.inl rfl) single
    (fun enrolled => absurd rfl ((Bell.mem_enrolled_resume woken).mp enrolled).2)
    (fun x enrolled _ => ((Bell.mem_enrolled_resume woken).mp enrolled).1)
    (List.nodup_cons.mpr ⟨asleep, s.once⟩)
    (fun x awake ne => (List.mem_cons.mp awake).resolve_left ne) (fun x waits _ => waits)
    (fun _ => ?_)
  have once := Bell.alone_le_resume s.single c
  rw [List.length_cons]
  omega

theorem Sound.leave (s : h.Sound) (c : Nat) : (h.next (.leave c)).Sound := by
  have single : (h.queue.bell.leave c).enrolled.Nodup :=
    (Bell.enrolled_leave h.queue.bell c).nodup_iff.mpr (s.single.filter _)
  exact s.move (.inl rfl) single
    (fun enrolled => absurd rfl (Bell.mem_enrolled_leave.mp enrolled).2)
    (fun x enrolled _ => (Bell.mem_enrolled_leave.mp enrolled).1)
    s.once (fun x awake _ => awake) (fun x waits _ => (Bell.mem_waiting_of_leave waits).1)
    (fun waits => Nat.add_le_add_right (Bell.alone_le_leave s.single waits) _)

/-- A caller that looks rests only if the queue is open and no key is ready. -/
theorem Sound.look (s : h.Sound) (c : Nat) : (h.next (.look c)).Sound := by
  have bell : (h.next (.look c)).queue.bell = h.queue.bell := WorkQueue.bell_take h.queue
  have inside : ∀ x ∈ h.queue.bell.enrolled, (h.next (.look c)).seat x ≠ .away := by
    intro x enrolled
    by_cases same : x = c
    · subst same
      exact (seat_move_self h x _).symm ▸ WorkQueue.Found.seat_ne_away _
    · exact (seat_move_of_ne h _ same).symm ▸ s.inside x enrolled
  have before {x : Nat} (blocked : (h.next (.look c)).Blocked x)
      (leaves : h.queue.take.1.seat ≠ .resting) : h.Blocked x := by
    have waits : x ∈ h.queue.bell.waiting := bell ▸ blocked.2
    have ne : x ≠ c := ne_of_blocked_move leaves ⟨blocked.1, waits⟩
    exact ⟨(seat_move_of_ne h _ ne).symm.trans blocked.1, waits⟩
  have running : ∀ x ∈ h.awake.erase c, (h.next (.look c)).seat x = .away ∨
      (h.next (.look c)).seat x = .looking := by
    intro x awake
    obtain ⟨ne, awake⟩ := s.once.mem_erase_iff.mp awake
    exact (seat_move_of_ne h _ ne).symm ▸ s.running x awake
  refine ⟨by rw [bell]; exact s.single, by rw [bell]; exact inside, s.once.erase c, running,
    fun x blocked open_ => ?_, fun x blocked shut => ?_⟩
  · have open_ : h.queue.isShutDown = false := (WorkQueue.isShutDown_take h.queue).symm.trans open_
    cases ready : h.queue.ready with
    | nil => simp [Lobby.next, WorkQueue.take_of_nil open_ ready, ready]
    | cons k rest =>
      have taken := WorkQueue.take_of_cons open_ ready
      have covered := s.heard x (before blocked (by simp [taken, WorkQueue.Found.seat])) open_
      have left : (h.next (.look c)).queue.ready = rest := congrArg (·.2.ready) taken
      have looked : h.awake.length ≤ (h.awake.erase c).length + 1 := by
        have := List.le_length_erase (a := c) (l := h.awake)
        omega
      rw [left, bell]
      rw [ready, List.length_cons] at covered
      simp only [Lobby.next, Lobby.move]
      omega
  · have shut : h.queue.isShutDown = true := (WorkQueue.isShutDown_take h.queue).symm.trans shut
    have taken := WorkQueue.take_of_shutDown shut
    exact s.warned x (before blocked (by simp [taken, WorkQueue.Found.seat])) shut

/-- **Every step keeps a lobby sound.** -/
theorem Sound.next (s : h.Sound) {a : Act K} (ha : h.Allows a) : (h.next a).Sound := by
  cases a with
  | change a => exact s.change a
  | shutDown => exact s.shutDown
  | ring => exact s.ring ha
  | ringAll => exact s.ringAll
  | enroll c => exact s.enroll ha
  | look c => exact s.look c
  | rise c => exact s.rise ha.1 ha.2
  | leave c => exact s.leave c

theorem Sound.run (s : h.Sound) {l : List (Act K)} (hl : h.Lawful l) : (h.run l).Sound :=
  hl.keeps (fun s ha => s.next ha) s

/-! ### Runs that get somewhere -/

/-- A lobby may come to be another one. -/
def Reaches (h h' : Lobby K) : Prop := ∃ l, h.Lawful l ∧ h.run l = h'

theorem Reaches.refl (h : Lobby K) : h.Reaches h := ⟨[], trivial, rfl⟩

theorem Reaches.trans {h h' h'' : Lobby K} (r : h.Reaches h') (r' : h'.Reaches h'') :
    h.Reaches h'' := by
  obtain ⟨l, lawful, rfl⟩ := r
  obtain ⟨l', lawful', rfl⟩ := r'
  exact ⟨l ++ l', (lawful_append ..).mpr ⟨lawful, lawful'⟩, run_append ..⟩

theorem reaches_next {a : Act K} (ha : h.Allows a) : h.Reaches (h.next a) :=
  ⟨[a], ⟨ha, trivial⟩, rfl⟩

theorem Reaches.sound {h' : Lobby K} (r : h.Reaches h') (s : h.Sound) : h'.Sound := by
  obtain ⟨l, lawful, rfl⟩ := r
  exact s.run lawful

/-- A change with its ring is the whole operation. -/
theorem reaches_change (h : Lobby K) (a : Change K) :
    h.Reaches { h with queue := a.apply h.queue } := by
  obtain ⟨q', r, makes⟩ := Change.exists_makes h.queue a
  have made : a.apply h.queue =
      { q' with bell := if r then h.queue.bell.ring else h.queue.bell } := makes.apply h.queue.bell
  have first : h.Reaches
      { h with queue := { q' with bell := h.queue.bell }, rings := h.rings + r.toNat } := by
    have changed : h.Reaches (h.next (.change a)) := reaches_next trivial
    rwa [next, made, makes.rings] at changed
  rw [made]
  cases r with
  | false => exact first
  | true => exact first.trans (reaches_next (a := .ring) (Nat.succ_pos h.rings))

theorem reaches_shutDown (h : Lobby K) : h.Reaches { h with queue := h.queue.shutDown } :=
  (reaches_next (a := .shutDown) trivial).trans
    (reaches_next (a := .ringAll) (Nat.succ_pos h.alarms))

/-! ### Services as lobbies -/

/-- A caller enrolls and looks. -/
theorem reaches_look (q q' : WorkQueue K) (c : Nat) (w : List Nat) :
    (busy q c .away q' w).Reaches (busy q c q'.take.1.seat
      { q'.take.2 with bell := q'.bell.enroll c } (w.erase c)) := by
  have enrolled := reaches_next (h := busy q c .away q' w) (a := .enroll c) seat_busy
  refine enrolled.trans ?_
  have looked := reaches_next (h := (busy q c .away q' w).next (.enroll c)) (a := .look c)
    (seat_move_self ..)
  simpa [next, busy, withBell, move, WorkQueue.take_bell] using looked

/-- A caller that was woken, or took a permit, goes round again. -/
theorem reaches_rise (woken : c ∉ q'.bell.waiting) :
    (busy q c .resting q' w).Reaches
      (busy q c .away { q' with bell := q'.bell.resume c } (c :: w)) := by
  have risen := reaches_next (h := busy q c .resting q' w) (a := .rise c) ⟨seat_busy, woken⟩
  simpa [next, busy, withBell, move] using risen

theorem reaches_leave (ht : t = .leaving ∨ t = .resting) :
    (busy q c t q' w).Reaches (busy q c .away { q' with bell := q'.bell.leave c } w) := by
  have left := reaches_next (h := busy q c t q' w) (a := .leave c)
    (ht.imp seat_busy.trans seat_busy.trans)
  simpa [next, busy, withBell, move] using left

/-- A caller that has its answer leaves. -/
theorem reaches_ask_found (unknown : c ∉ q.bell.enrolled) (found : q.take.1 ≠ .nothing) :
    (calm q w).Reaches (calm (q.ask c).2 (w.erase c)) := by
  have gone : ((q.bell.enroll c).leave c).seats c = .away :=
    Bell.seats_of_unknown fun enrolled => (Bell.mem_enrolled_leave.mp enrolled).2 rfl
  have others (x : Nat) (ne : x ≠ c) :
      x ∈ ((q.bell.enroll c).leave c).enrolled ↔ x ∈ q.bell.enrolled := by
    rw [Bell.mem_enrolled_leave, Bell.mem_enrolled_enroll]
    simp [ne]
  have looked := reaches_look q q c w
  rw [WorkQueue.Found.seat_of_ne_nothing found, busy_of_unknown unknown] at looked
  have left := looked.trans (reaches_leave (.inl rfl))
  rw [busy_eq_calm gone others] at left
  rwa [WorkQueue.ask_of_found found]

/-- A caller that rests without being enrolled took a permit, so it looks again. -/
theorem reaches_look_again {b : Bell} (unknown : c ∉ b.enrolled) (nothing : q.take.1 = .nothing) :
    (busy q c .resting { q with bell := b } w).Reaches
      (busy q c .resting { q with bell := b.enroll c } w) := by
  have same : q.take.2 = q := WorkQueue.take_snd_of_ne_key (by simp [nothing])
  have woken : c ∉ b.waiting := fun waits => unknown (List.mem_append_left _ waits)
  have risen : (busy q c .resting { q with bell := b } w).Reaches
      (busy q c .away { q with bell := b.resume c } (c :: w)) := reaches_rise woken
  rw [Bell.resume_of_not_enrolled unknown] at risen
  have looked := reaches_look q { q with bell := b } c (c :: w)
  rw [WorkQueue.take_bell, nothing, same, List.erase_cons_head] at looked
  exact risen.trans looked

/-- A caller that finds nothing rests. If it took a permit it goes round again, and rests then. -/
theorem reaches_ask_nothing (unknown : c ∉ q.bell.enrolled) (nothing : q.take.1 = .nothing) :
    (calm q w).Reaches (calm (q.ask c).2 (w.erase c)) := by
  have same : q.take.2 = q := WorkQueue.take_snd_of_ne_key (by simp [nothing])
  have looked := reaches_look q q c w
  rw [nothing, same, busy_of_unknown unknown] at looked
  have rests {b : Bell} (permit : b.permit = false)
      (known : ∀ x, x ∈ b.enrolled ↔ x ∈ q.bell.enrolled)
      (r : (calm q w).Reaches (busy q c .resting { q with bell := b.enroll c } (w.erase c))) :
      (calm q w).Reaches (calm { q with bell := b.enroll c } (w.erase c)) := by
    rwa [busy_eq_calm] at r
    · exact Bell.seats_of_known (Bell.mem_enrolled_enroll.mpr (.inl ⟨permit, rfl⟩))
    · intro x ne
      rw [Bell.mem_enrolled_enroll, ← known]
      exact or_iff_right fun new => ne new.2
  rw [WorkQueue.ask_of_nothing nothing]
  by_cases permit : q.bell.permit = true
  · rw [Bell.enroll_of_permit permit c] at looked ⊢
    rw [if_pos permit]
    exact rests rfl (fun _ => Iff.rfl) (looked.trans (reaches_look_again unknown nothing))
  · rw [if_neg permit]
    exact rests (eq_false_of_ne_true permit) (fun _ => Iff.rfl) looked

theorem reaches_ask (unknown : c ∉ q.bell.enrolled) :
    (calm q w).Reaches (calm (q.ask c).2 (w.erase c)) := by
  by_cases nothing : q.take.1 = .nothing
  · exact reaches_ask_nothing unknown nothing
  · exact reaches_ask_found unknown nothing

/-- A caller that was woken goes round again. -/
theorem reaches_askAgain (single : q.bell.enrolled.Nodup) (woken : q.bell.isWoken c = true) :
    (calm q []).Reaches (calm (q.askAgain c).2 []) := by
  have waits := Bell.not_waiting_of_woken single woken
  have gone : c ∉ (q.bell.resume c).enrolled :=
    fun enrolled => ((Bell.mem_enrolled_resume waits).mp enrolled).2 rfl
  have others (x : Nat) (ne : x ≠ c) : x ∈ (q.bell.resume c).enrolled ↔ x ∈ q.bell.enrolled := by
    rw [Bell.mem_enrolled_resume waits]
    exact and_iff_left ne
  have risen : (busy q c .resting q []).Reaches
      (busy q c .away { q with bell := q.bell.resume c } [c]) := reaches_rise waits
  rw [busy_of_known (Bell.mem_enrolled.mpr (.inr woken)),
    busy_eq_calm (Bell.seats_of_unknown gone) others] at risen
  have asked := risen.trans (reaches_ask gone)
  rwa [List.erase_cons_head] at asked

theorem reaches_giveUp (known : c ∈ q.bell.enrolled) :
    (calm q []).Reaches (calm (q.giveUp c) []) := by
  have gone : c ∉ (q.bell.leave c).enrolled :=
    fun enrolled => (Bell.mem_enrolled_leave.mp enrolled).2 rfl
  have others (x : Nat) (ne : x ≠ c) : x ∈ (q.bell.leave c).enrolled ↔ x ∈ q.bell.enrolled := by
    rw [Bell.mem_enrolled_leave]
    exact and_iff_left ne
  have left : (busy q c .resting q []).Reaches
      (busy q c .away { q with bell := q.bell.leave c } []) := reaches_leave (.inr rfl)
  rwa [busy_of_known known, busy_eq_calm (Bell.seats_of_unknown gone) others] at left

theorem calm_reaches_change (q : WorkQueue K) (a : Change K) :
    (calm q []).Reaches (calm (a.apply q) []) := by
  have known : (a.apply q).bell.enrolled.Perm q.bell.enrolled := by
    rw [Change.bell_apply]
    split
    · exact Bell.enrolled_ring _
    · rfl
  rw [← calm_congr known]
  exact reaches_change (calm q []) a

theorem calm_reaches_shutDown (q : WorkQueue K) : (calm q []).Reaches (calm q.shutDown []) := by
  have known : q.shutDown.bell.enrolled.Perm q.bell.enrolled := Bell.enrolled_ringAll q.bell
  rw [← calm_congr known]
  exact reaches_shutDown (calm q [])

/-- **Whatever happens to a service, it happens step by step in a lobby.** -/
theorem reaches_deed {s : Service K} {a : Deed K} (single : s.queue.bell.enrolled.Nodup)
    (ha : s.Allows a) : (calm s.queue []).Reaches (calm (s.next a).queue []) := by
  cases a with
  | pass time => exact .refl _
  | add k => exact calm_reaches_change s.queue (.add k)
  | addAfter k d => exact calm_reaches_change s.queue (.addAfter s.now k d)
  | addRateLimited k =>
    exact (calm_reaches_change s.queue (.fail k)).trans
      (calm_reaches_change _ (.addAfter s.now k (s.queue.backoff.nextDelay k)))
  | forget k => exact calm_reaches_change s.queue (.forget k)
  | expire k t => exact calm_reaches_change s.queue (.expire k t)
  | deliver k => exact calm_reaches_change s.queue (.deliver k)
  | ask c =>
    have unknown : c ∉ s.queue.bell.enrolled := by
      rw [Bell.mem_enrolled, ha.2]
      exact not_or.mpr ⟨ha.1, Bool.false_ne_true⟩
    rw [Service.next, Service.queue_receive]
    exact reaches_ask unknown
  | askAgain c =>
    rw [Service.next, Service.queue_receive]
    exact reaches_askAgain single ha
  | giveUp c => exact reaches_giveUp (Bell.mem_enrolled.mpr ha)
  | done c k => exact calm_reaches_change s.queue (.done k)
  | shutDown => exact calm_reaches_shutDown s.queue

theorem reaches_run {s : Service K} (sound : (calm s.queue []).Sound) {l : List (Deed K)}
    (hl : s.Lawful l) : (calm s.queue []).Reaches (calm (s.run l).queue []) := by
  induction l generalizing s with
  | nil => exact .refl _
  | cons a rest ih =>
    have first := reaches_deed sound.single hl.1
    exact first.trans (ih (first.sound sound) hl.2)

/-- **No wake-up is lost.** However the steps of callers and of those who add keys, give them back
or shut the queue down are interleaved, a caller is blocked only if every ready key has a ring that
is still owed or a woken caller that has yet to look, and after a shutdown only if the ring for
everybody is owed. What is owed can always be done, and once it is, nobody is blocked for a ready
key or after a shutdown. Operations that nobody interrupts are such steps and owe no rings, so then
only woken callers have to run. -/
theorem nobody_left_waiting (p : Backoff.Policy) :
    (∀ l : List (Act K), (opened p).Lawful l →
      let h := (opened p).run l
      (h.Quiet ∨ ∃ a, h.Owes a ∧ h.Allows a) ∧
        ∀ c, h.Blocked c →
          (h.queue.isShutDown = false →
            h.queue.ready.length ≤ h.rings + h.queue.bell.alone + h.awake.length) ∧
          (h.queue.isShutDown = true → 0 < h.alarms) ∧
          (h.Quiet → h.queue.ready = [] ∧ h.queue.isShutDown = false)) ∧
    ∀ l : List (Deed K), (Service.opened p).Lawful l →
      let q := ((Service.opened p).run l).queue
      (opened p).Reaches (calm q []) ∧
        (q.bell.woken = [] → q.bell.waiting ≠ [] → q.ready = [] ∧ q.isShutDown = false) := by
  constructor
  · intro l lawful h
    have sound : h.Sound := (sound_opened p).run lawful
    exact ⟨sound.quiet_or_owes, fun c blocked => ⟨sound.heard c blocked, sound.warned c blocked,
      fun quiet => sound.of_quiet quiet blocked⟩⟩
  · intro l lawful q
    have reaches : (opened p).Reaches (calm q []) :=
      reaches_run (s := Service.opened p) (sound_opened p) lawful
    refine ⟨reaches, fun woken waiting => ?_⟩
    obtain ⟨c, waits⟩ := List.exists_mem_of_ne_nil _ waiting
    have blocked : (calm q []).Blocked c :=
      ⟨Bell.seats_of_known (List.mem_append_left _ waits), waits⟩
    exact (reaches.sound (sound_opened p)).of_quiet ⟨rfl, rfl, woken, rfl⟩ blocked

/-- Two callers rest when a key is added. The one that is woken for it is overtaken by a third and
rests again. -/
theorem nobody_left_waiting_overtaken :
    let l : List (Act Nat) := [.enroll 0, .look 0, .enroll 1, .look 1, .change (.add 5), .enroll 2,
      .ring, .look 2, .leave 2, .rise 0, .enroll 0, .look 0]
    let h := (opened default).run l
    let l' : List (Deed Nat) := [.ask 0, .ask 1, .add 5, .ask 2, .askAgain 0]
    let q := ((Service.opened default).run l').queue
    (opened default).Lawful l ∧ h.Quiet ∧ h.Blocked 0 ∧
      (h.queue.ready = [] ∧ h.queue.isShutDown = false) ∧
      (Service.opened default).Lawful l' ∧ q.bell.woken = [] ∧ q.bell.waiting = [1, 0] ∧
      q.ready = [] ∧ q.isShutDown = false := by
  intro l h l' q
  have lawful : (opened default).Lawful l := by decide
  have quiet : h.Quiet := ⟨by decide, by decide, by decide, by decide⟩
  have blocked : h.Blocked 0 := ⟨by decide, by decide⟩
  have lawful' : (Service.opened default).Lawful l' := by decide
  have waiting : q.bell.waiting = [1, 0] := by decide
  have rest : q.ready = [] ∧ q.isShutDown = false :=
    ((nobody_left_waiting default).2 l' lawful').2 (by decide) (by rw [waiting]; decide)
  have safe := ((nobody_left_waiting default).1 l lawful).2 0 blocked
  exact ⟨lawful, quiet, blocked, safe.2.2 quiet, lawful', by decide, waiting, rest⟩

end Lobby

end PoolControl
