import PoolControl.Proofs.Api.Writers
import PoolControl.Proofs.Loop.Operation
import PoolControl.Proofs.Loop.Site

/-! What a step of a site is to one key.

A `WorkerView` keeps of an attempt how far it has got in the protocol. Some arguments need the
plan that it still follows: what exactly comes after a call, or what was known when a record was
written.
`Site.turn` says of each step of a site what it does to one key, with the plan before and
after it; all that it leaves out is what happens to other keys. -/
namespace PoolControl

namespace Site

/-- What a step does to what is stored under a key, to the attempt on it and to its history. -/
inductive Turn (may : Worker → Worker → Prop) (k : Key) (s s' : Site) : Prop
  | idle (stored : s'.api.workers.get? k = s.api.workers.get? k)
      (attempt : s'.attempts k = s.attempts k) (log : s'.history k = s.history k)
  | created {w : Worker} (key : w.key = k) (free : s.api.workers.get? k = none)
      (stored : s'.api.workers.get? k = some w) (attempt : s'.attempts k = s.attempts k)
      (log : s'.log = .created w :: s.log) (first : w.metadata.generation = 1)
  | changed {old : Worker} {f : Worker → Worker} (found : s.api.workers.get? k = some old)
      (allowed : may old (f old)) (workers : s'.api.workers = (s.api.workers.modify k f).2)
      (attempt : s'.attempts k = s.attempts k) (log : s'.history k = s.history k)
  | deleted {old : Worker} {now : Timestamp} (found : s.api.workers.get? k = some old)
      (workers : s'.api.workers = (s.api.workers.delete now k).2)
      (attempt : s'.attempts k = s.attempts k) (log : s'.history k = s.history k)
  | begun (free : s.attempts k = none)
      (attempt : s'.attempts k = some (.going (Provision.plan k)))
      (stored : s'.api.workers.get? k = s.api.workers.get? k) (log : s'.history k = s.history k)
  | moved {stage : AttemptState} {stage' : Option AttemptState} {a : Api} {notes : List Note}
      (under : s.attempts k = some stage) (moves : stage.Moves k s.api stage' a notes)
      (api : s'.api = a) (attempt : s'.attempts k = stage')
      (log : s'.history k = notes ++ s.history k)

variable {may : Worker → Worker → Prop} {s s' : Site}

/-- **Every step of a site is a turn of each key.** -/
theorem turn (sound : s.Sound) (hs : Step may s s') (k : Key) : Turn may k s s' := by
  cases hs with
  | create now x =>
    rcases Tracker.create_cases s.api.workers now x with ⟨e, he⟩ | ⟨free, y, t, he, hy, -, hg⟩
    · exact .idle (by rw [he]) rfl (by simp only [history, he, noted, List.nil_append])
    · have key : y.key = x.key := by rw [hy]; rfl
      by_cases hk : k = x.key
      · subst hk
        refine .created key free ?_ rfl (by rw [he]; rfl) (by rw [hy])
        rw [he]
        exact (hg _).trans (if_pos rfl)
      · have about : ∀ n ∈ noted (.ok y), n.key = x.key := fun n hn => by
          rw [List.mem_singleton.mp hn]
          exact key
        refine .idle ?_ rfl ?_
        · rw [he]
          exact (hg k).trans (if_neg hk)
        · rw [history, he, filter_append about, if_neg hk]
          rfl
  | change k' f allowed =>
    cases found : s.api.workers.get? k' with
    | none => exact .idle (by rw [Tracker.modify_of_missing found]) rfl rfl
    | some old =>
      by_cases hk : k = k'
      · subst hk
        exact .changed found (allowed old found) rfl rfl rfl
      · obtain ⟨-, -, others⟩ := Tracker.outcome_modify found (sound.keyed k' old found) f
        exact .idle (others k hk) rfl rfl
  | delete now k' =>
    cases found : s.api.workers.get? k' with
    | none => exact .idle (by rw [Tracker.delete_of_missing found]) rfl rfl
    | some old =>
      by_cases hk : k = k'
      · subst hk
        exact .deleted found rfl rfl rfl
      · obtain ⟨-, -, others⟩ := Tracker.outcome_delete found (sound.keyed k' old found) now
        exact .idle (others k hk) rfl rfl
  | elsewhere api store version => exact .idle (congrArg (·.get? k) store) rfl rfl
  | begin k' free =>
    by_cases hk : k = k'
    · subst hk
      exact .begun free (Function.update_self ..) rfl rfl
    · exact .idle rfl (Function.update_of_ne hk ..) rfl
  | @move k' stage stage' api notes under moves =>
    obtain ⟨b, hb⟩ := sound.stands k'
    rw [Stands, under] at hb
    cases hb with
    | some ho =>
    have log := filter_append (k := k) (moves.key ho) s.log
    by_cases hk : k = k'
    · subst hk
      rw [if_pos rfl] at log
      exact .moved under moves rfl (Function.update_self ..) log
    · rw [if_neg hk, List.nil_append] at log
      exact .idle (moves.others ho sound.keyed hk).1 (Function.update_of_ne hk ..) log

/-- A call that is logged was next in the attempt. -/
theorem Turn.of_called {k : Key} {c : Command} (h : Turn may k s s')
    (noted : s'.log = .called c :: s.log) (key : c.worker.key = k) :
    ∃ next, s.attempts k = some (.going (.actuate c next)) := by
  have called : s'.history k = .called c :: s.history k := history_cons noted key
  cases h with
  | created _ _ _ _ log => cases (List.cons.inj (noted.symm.trans log)).1
  | moved under moves _ _ log =>
    rw [log] at called
    cases moves with
    | @call c' next =>
      obtain rfl : c' = c := Note.called.inj (List.cons.inj called).1
      exact ⟨next, under⟩
    | lose | reply | cut => cases (List.cons.inj called).1
    | _ => exact absurd called.symm (List.cons_ne_self _ _)
  | idle _ _ log | changed _ _ _ _ log | deleted _ _ _ log | begun _ _ _ log =>
    rw [log] at called
    exact absurd called.symm (List.cons_ne_self _ _)

/-- An attempt writes to the worker of its own key. -/
theorem Sound.write_key (sound : s.Sound) {k : Key} {x : Write} {next : Except ApiError Unit → Plan}
    (under : s.attempts k = some (.going (.write x next))) : x.key = k := by
  obtain ⟨a, ha⟩ := sound.stands k
  rw [Stands, under] at ha
  cases ha with
  | some ho =>
    obtain ⟨hp⟩ := ho
    exact hp.1.key

end Site

end PoolControl
