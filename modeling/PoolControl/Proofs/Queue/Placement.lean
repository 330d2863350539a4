import PoolControl.Queue.WorkQueue

/-! Where the keys of a queue are.

A ready key is dirty and not being processed, and stands in line once. While the queue is
open, a dirty key is ready or being processed, so none is forgotten. `Tidy` collects these
facts; every operation keeps them, and only giving a key back asks for something more: the
key has to be one that is being processed.

The bell, the delayed adds and the failure counts do not matter here (`Tidy.of_same`). -/
namespace PoolControl.WorkQueue

variable {K : Type} [Ord K]

/-- What a queue keeps to. -/
structure Tidy (q : WorkQueue K) : Prop where
  nodup : q.ready.Nodup
  dirty : ∀ k ∈ q.ready, k ∈ q.dirty
  idle : ∀ k ∈ q.ready, k ∉ q.processing
  placed : q.isShutDown = false → ∀ k ∈ q.dirty, k ∈ q.ready ∨ k ∈ q.processing

theorem Tidy.of_same {q q' : WorkQueue K} (h : q.Tidy) (hr : q'.ready = q.ready)
    (hd : q'.dirty = q.dirty) (hp : q'.processing = q.processing)
    (hs : q'.isShutDown = q.isShutDown) : q'.Tidy := by
  obtain ⟨nodup, dirty, idle, placed⟩ := h
  refine ⟨?_, ?_, ?_, ?_⟩
  · rw [hr]; exact nodup
  · rw [hr, hd]; exact dirty
  · rw [hr, hp]; exact idle
  · rw [hr, hd, hp, hs]; exact placed

theorem tidy_new (p : Backoff.Policy) : (new p : WorkQueue K).Tidy :=
  ⟨List.nodup_nil, fun _ hk => absurd hk List.not_mem_nil,
    fun _ hk => absurd hk List.not_mem_nil, fun _ _ hk => by cases hk⟩

variable [Std.TransOrd K] [Std.LawfulEqOrd K]

/-! ### What the operations do to the keys -/

theorem add_of_shutDown {q : WorkQueue K} (k : K) (h : q.isShutDown = true) : q.add k = q := by
  unfold add
  rw [h]
  rfl

theorem add_of_dirty {q : WorkQueue K} {k : K} (h : k ∈ q.dirty) : q.add k = q := by
  have h : q.dirty.contains k = true := h
  unfold add
  rw [h, Bool.or_true]
  rfl

/-- A key that is being processed is only marked. -/
theorem add_of_processing {q : WorkQueue K} {k : K} (hs : q.isShutDown = false) (hd : k ∉ q.dirty)
    (hp : k ∈ q.processing) : q.add k = { q with dirty := q.dirty.add k } := by
  have hd : q.dirty.contains k = false := by simpa using (show ¬ q.dirty.contains k = true from hd)
  have hp : q.processing.contains k = true := hp
  unfold add
  simp only [hs, hd, hp, Bool.or_self, Bool.false_eq_true, if_false, if_true]

/-- Any other key becomes ready. -/
theorem add_of_idle {q : WorkQueue K} {k : K} (hs : q.isShutDown = false) (hd : k ∉ q.dirty)
    (hp : k ∉ q.processing) : q.add k = push { q with dirty := q.dirty.add k } k := by
  have hd : q.dirty.contains k = false := by simpa using (show ¬ q.dirty.contains k = true from hd)
  have hp : q.processing.contains k = false := by
    simpa using (show ¬ q.processing.contains k = true from hp)
  unfold add
  simp only [hs, hd, hp, Bool.or_self, Bool.false_eq_true, if_false]

/-- An add takes one of these ways. -/
theorem add_cases (q : WorkQueue K) (k : K) :
    q.add k = q ∨
      (q.isShutDown = false ∧ k ∉ q.dirty ∧ k ∈ q.processing ∧
        q.add k = { q with dirty := q.dirty.add k }) ∨
      (q.isShutDown = false ∧ k ∉ q.dirty ∧ k ∉ q.processing ∧
        q.add k = push { q with dirty := q.dirty.add k } k) := by
  rcases q.isShutDown.eq_false_or_eq_true with hs | hs
  · exact .inl (add_of_shutDown k hs)
  · by_cases hd : k ∈ q.dirty
    · exact .inl (add_of_dirty hd)
    · by_cases hp : k ∈ q.processing
      · exact .inr (.inl ⟨hs, hd, hp, add_of_processing hs hd hp⟩)
      · exact .inr (.inr ⟨hs, hd, hp, add_of_idle hs hd hp⟩)

/-- A delayed add adds the key at once, or it only changes which delayed adds are pending. -/
theorem addAfter_cases (q : WorkQueue K) (now : Instant) (k : K) (d : Duration) :
    (q.addAfter now k d).1 = q.add k ∨
      ∃ waiting timers, (q.addAfter now k d).1 = { q with waiting, timers } := by
  unfold addAfter
  split
  · exact .inl rfl
  · split
    · exact .inr ⟨_, _, rfl⟩
    · split
      · exact .inr ⟨_, _, rfl⟩
      · exact .inr ⟨_, _, rfl⟩

omit [Std.TransOrd K] [Std.LawfulEqOrd K] in
/-- A timer that goes off only changes which delayed adds are pending and which keys are due. -/
theorem expire_eq [DecidableEq K] (q : WorkQueue K) (k : K) (t : Instant) :
    ∃ waiting timers due, q.expire k t = { q with waiting, timers, due } := by
  unfold expire
  dsimp only
  split
  · exact ⟨_, _, _, rfl⟩
  · exact ⟨_, _, _, rfl⟩

theorem mem_dirty_add [DecidableEq K] {q : WorkQueue K} (hs : q.isShutDown = false) (k : K) :
    k ∈ (q.add k).dirty := by
  by_cases hd : k ∈ q.dirty
  · rw [add_of_dirty hd]
    exact hd
  · have added : k ∈ q.dirty.add k := OrderedSet.mem_add.mpr (.inl rfl)
    by_cases hp : k ∈ q.processing
    · rw [add_of_processing hs hd hp]
      exact added
    · rw [add_of_idle hs hd hp]
      exact added

theorem take_of_shutDown {q : WorkQueue K} (h : q.isShutDown = true) : q.take = (.shutDown, q) := by
  unfold take
  rw [h]
  rfl

theorem take_of_nil {q : WorkQueue K} (hs : q.isShutDown = false) (h : q.ready = []) :
    q.take = (.nothing, q) := by
  unfold take
  rw [hs, h]
  rfl

theorem take_of_cons {q : WorkQueue K} {k : K} {rest : List K} (hs : q.isShutDown = false)
    (h : q.ready = k :: rest) :
    q.take = (.key k,
      { q with ready := rest, dirty := q.dirty.erase k, processing := q.processing.add k }) := by
  unfold take
  rw [hs, h]
  rfl

/-- A key is handed out from the head of the line. -/
theorem take_eq_key {q q' : WorkQueue K} {k : K} (h : q.take = (.key k, q')) :
    ∃ rest, q.isShutDown = false ∧ q.ready = k :: rest ∧
      q' =
        { q with ready := rest, dirty := q.dirty.erase k, processing := q.processing.add k } := by
  rcases q.isShutDown.eq_false_or_eq_true with hs | hs
  · rw [take_of_shutDown hs] at h
    exact absurd (congrArg Prod.fst h) (by simp)
  · cases hr : q.ready with
    | nil =>
      rw [take_of_nil hs hr] at h
      exact absurd (congrArg Prod.fst h) (by simp)
    | cons k₀ rest =>
      rw [take_of_cons hs hr] at h
      obtain ⟨hk, hq⟩ := Prod.mk.inj h
      cases hk
      exact ⟨rest, hs, rfl, hq.symm⟩

/-- An answer other than a key changes nothing. -/
theorem take_snd_of_ne_key {q : WorkQueue K} (h : ∀ k, q.take.1 ≠ .key k) : q.take.2 = q := by
  cases hs : q.isShutDown
  · cases hr : q.ready with
    | nil => rw [take_of_nil hs hr]
    | cons k rest =>
      rw [take_of_cons hs hr] at h
      exact absurd rfl (h k)
  · rw [take_of_shutDown hs]

theorem take_bell (q : WorkQueue K) (b : Bell) :
    { q with bell := b }.take = (q.take.1, { q.take.2 with bell := b }) := by
  unfold take
  dsimp only
  split
  · rfl
  · split <;> rfl

theorem bell_take (q : WorkQueue K) : q.take.2.bell = q.bell :=
  congrArg (·.2.bell) (take_bell q q.bell)

/-- Asking is taking, the bell apart. -/
theorem ask_eq (q : WorkQueue K) (c : Nat) :
    ∃ b : Bell, q.ask c = (q.take.1, { q.take.2 with bell := b }) := by
  unfold ask
  simp only [take_bell]
  cases q.take.1 with
  | key k => exact ⟨_, rfl⟩
  | shutDown => exact ⟨_, rfl⟩
  | nothing =>
    cases q.bell.passes
    · exact ⟨_, rfl⟩
    · exact ⟨_, rfl⟩

/-- A caller that has its answer leaves. -/
theorem ask_of_found {q : WorkQueue K} (h : q.take.1 ≠ .nothing) (c : Nat) :
    q.ask c = (q.take.1, { q.take.2 with bell := (q.bell.enroll c).leave c }) := by
  unfold ask
  simp only [take_bell]

/-- A caller that finds nothing stays, and a permit does not help it. -/
theorem ask_of_nothing {q : WorkQueue K} (h : q.take.1 = .nothing) (c : Nat) :
    q.ask c = (.nothing, { q with
      bell := if q.bell.permit then (q.bell.enroll c).enroll c else q.bell.enroll c }) := by
  have same : q.take.2 = q := take_snd_of_ne_key (by simp [h])
  unfold ask
  simp only [take_bell, h, same, Bell.passes]
  split <;> simp only [*, if_true, Bool.false_eq_true, if_false]

omit [Std.TransOrd K] [Std.LawfulEqOrd K] in
/-- Giving a key back takes one of two ways. -/
theorem done_cases (q : WorkQueue K) (k : K) :
    (q.isShutDown = true ∨ k ∉ q.dirty) ∧
        q.done k = { q with processing := q.processing.erase k } ∨
      q.isShutDown = false ∧ k ∈ q.dirty ∧
        q.done k = push { q with processing := q.processing.erase k } k := by
  unfold done
  rcases q.isShutDown.eq_false_or_eq_true with hs | hs
  · refine .inl ⟨.inl hs, ?_⟩
    simp only [hs, Bool.true_or, if_true]
  · by_cases hd : k ∈ q.dirty
    · refine .inr ⟨hs, hd, ?_⟩
      have hd : q.dirty.contains k = true := hd
      simp only [hs, hd, Bool.false_or, Bool.not_true, Bool.false_eq_true, if_false]
    · refine .inl ⟨.inr hd, ?_⟩
      have hd : q.dirty.contains k = false := by
        simpa using (show ¬ q.dirty.contains k = true from hd)
      simp only [hs, hd, Bool.false_or, Bool.not_false, if_true]

omit [Std.TransOrd K] [Std.LawfulEqOrd K] in
theorem ready_done {q : WorkQueue K} (hs : q.isShutDown = false) (k : K) :
    (q.done k).ready = q.ready ++ if k ∈ q.dirty then [k] else [] := by
  rcases done_cases q k with ⟨clean, he⟩ | ⟨-, again, he⟩
  · have clean : k ∉ q.dirty := clean.resolve_left (by rw [hs]; exact Bool.false_ne_true)
    rw [he, if_neg clean]
    exact (List.append_nil _).symm
  · rw [he, if_pos again]
    rfl

/-! ### The keys in process -/

theorem processing_add (q : WorkQueue K) (k : K) : (q.add k).processing = q.processing := by
  rcases add_cases q k with he | ⟨-, -, -, he⟩ | ⟨-, -, -, he⟩ <;> exact congrArg (·.processing) he

theorem processing_addAfter (q : WorkQueue K) (now : Instant) (k : K) (d : Duration) :
    (q.addAfter now k d).1.processing = q.processing := by
  rcases addAfter_cases q now k d with he | ⟨_, _, he⟩
  · rw [he]
    exact processing_add q k
  · rw [he]

theorem processing_addRateLimited (q : WorkQueue K) (now : Instant) (k : K) :
    (q.addRateLimited now k).1.processing = q.processing :=
  processing_addAfter { q with backoff := q.backoff.fail k } now k (q.backoff.nextDelay k)

omit [Std.TransOrd K] [Std.LawfulEqOrd K] in
theorem processing_expire [DecidableEq K] (q : WorkQueue K) (k : K) (t : Instant) :
    (q.expire k t).processing = q.processing := by
  obtain ⟨_, _, _, he⟩ := expire_eq q k t
  rw [he]

theorem processing_deliver [DecidableEq K] (q : WorkQueue K) (k : K) :
    (q.deliver k).processing = q.processing := processing_add _ k

omit [Std.TransOrd K] [Std.LawfulEqOrd K] in
theorem processing_done (q : WorkQueue K) (k : K) :
    (q.done k).processing = q.processing.erase k := by
  rcases done_cases q k with ⟨-, he⟩ | ⟨-, -, he⟩ <;> exact congrArg (·.processing) he

/-! ### Only shutting down shuts down -/

theorem isShutDown_add (q : WorkQueue K) (k : K) : (q.add k).isShutDown = q.isShutDown := by
  rcases add_cases q k with he | ⟨-, -, -, he⟩ | ⟨-, -, -, he⟩ <;> exact congrArg (·.isShutDown) he

theorem isShutDown_addAfter (q : WorkQueue K) (now : Instant) (k : K) (d : Duration) :
    (q.addAfter now k d).1.isShutDown = q.isShutDown := by
  rcases addAfter_cases q now k d with he | ⟨_, _, he⟩
  · rw [he]
    exact isShutDown_add q k
  · rw [he]

omit [Std.TransOrd K] [Std.LawfulEqOrd K] in
theorem isShutDown_expire [DecidableEq K] (q : WorkQueue K) (k : K) (t : Instant) :
    (q.expire k t).isShutDown = q.isShutDown := by
  obtain ⟨_, _, _, he⟩ := expire_eq q k t
  rw [he]

theorem isShutDown_deliver [DecidableEq K] (q : WorkQueue K) (k : K) :
    (q.deliver k).isShutDown = q.isShutDown := isShutDown_add _ k

theorem isShutDown_take (q : WorkQueue K) : q.take.2.isShutDown = q.isShutDown := by
  unfold take
  split
  · rfl
  · split <;> rfl

theorem isShutDown_ask (q : WorkQueue K) (c : Nat) : (q.ask c).2.isShutDown = q.isShutDown := by
  obtain ⟨b, he⟩ := ask_eq q c
  rw [he]
  exact isShutDown_take q

omit [Std.TransOrd K] [Std.LawfulEqOrd K] in
theorem isShutDown_done (q : WorkQueue K) (k : K) : (q.done k).isShutDown = q.isShutDown := by
  rcases done_cases q k with ⟨-, he⟩ | ⟨-, -, he⟩ <;> exact congrArg (·.isShutDown) he

/-! ### Operations keep the keys in place -/

variable [DecidableEq K] {q : WorkQueue K}

omit [Std.TransOrd K] [Std.LawfulEqOrd K] [DecidableEq K] in
/-- A dirty key that is neither ready nor being processed may become ready. -/
theorem Tidy.push {k : K} (nodup : q.ready.Nodup) (dirty : ∀ x ∈ q.ready, x ∈ q.dirty)
    (idle : ∀ x ∈ q.ready, x ∉ q.processing) (hk : k ∈ q.dirty) (hr : k ∉ q.ready)
    (hp : k ∉ q.processing)
    (placed : q.isShutDown = false → ∀ x ∈ q.dirty, x = k ∨ x ∈ q.ready ∨ x ∈ q.processing) :
    (q.push k).Tidy := by
  have mem {x : K} : x ∈ (q.push k).ready ↔ x ∈ q.ready ∨ x = k := by simp [WorkQueue.push]
  refine ⟨?_, ?_, ?_, ?_⟩
  · show (q.ready ++ [k]).Nodup
    rw [List.nodup_append]
    refine ⟨nodup, List.pairwise_singleton _ k, fun x hx y hy => ?_⟩
    rw [List.mem_singleton.mp hy]
    rintro rfl
    exact hr hx
  · intro x hx
    rcases mem.mp hx with hx | rfl
    · exact dirty x hx
    · exact hk
  · intro x hx
    rcases mem.mp hx with hx | rfl
    · exact idle x hx
    · exact hp
  · intro hs x hx
    rcases placed hs x hx with rfl | hx | hx
    · exact .inl (mem.mpr (.inr rfl))
    · exact .inl (mem.mpr (.inl hx))
    · exact .inr hx

theorem Tidy.add (h : q.Tidy) (k : K) : (q.add k).Tidy := by
  rcases add_cases q k with he | ⟨hs, hd, hp, he⟩ | ⟨hs, hd, hp, he⟩
  · rw [he]
    exact h
  · rw [he]
    refine ⟨h.nodup, fun x hx => OrderedSet.mem_add.mpr (.inr (h.dirty x hx)), h.idle, ?_⟩
    intro hs x hx
    rcases OrderedSet.mem_add.mp hx with rfl | hx
    · exact .inr hp
    · exact h.placed hs x hx
  · rw [he]
    refine Tidy.push h.nodup (fun x hx => OrderedSet.mem_add.mpr (.inr (h.dirty x hx))) h.idle
      (OrderedSet.mem_add.mpr (.inl rfl)) (fun hr => hd (h.dirty k hr)) hp ?_
    intro hs x hx
    rcases OrderedSet.mem_add.mp hx with rfl | hx
    · exact .inl rfl
    · exact .inr (h.placed hs x hx)

theorem Tidy.take (h : q.Tidy) : q.take.2.Tidy := by
  cases hs : q.isShutDown
  · cases hr : q.ready with
    | nil =>
      rw [take_of_nil hs hr]
      exact h
    | cons k rest =>
      rw [take_of_cons hs hr]
      have nodup := h.nodup
      rw [hr] at nodup
      obtain ⟨hk, hrest⟩ := List.nodup_cons.mp nodup
      have mem {x : K} (hx : x ∈ rest) : x ∈ q.ready := by
        rw [hr]
        exact List.mem_cons_of_mem k hx
      have ne {x : K} (hx : x ∈ rest) : x ≠ k := fun e => hk (e ▸ hx)
      refine ⟨hrest, ?_, ?_, ?_⟩
      · intro x hx
        exact OrderedSet.mem_erase.mpr ⟨ne hx, h.dirty x (mem hx)⟩
      · intro x hx hp
        rcases OrderedSet.mem_add.mp hp with e | hp
        · exact ne hx e
        · exact h.idle x (mem hx) hp
      · intro _ x hx
        obtain ⟨hne, hx⟩ := OrderedSet.mem_erase.mp hx
        rcases h.placed hs x hx with hx | hx
        · rw [hr] at hx
          exact .inl (List.mem_of_ne_of_mem hne hx)
        · exact .inr (OrderedSet.mem_add.mpr (.inr hx))
  · rw [take_of_shutDown hs]
    exact h

omit [Std.TransOrd K] in
/-- Whoever gives a key back must have it: a ready key that was given back would stand in
line twice. -/
theorem Tidy.done {k : K} (h : q.Tidy) (hk : k ∈ q.processing) : (q.done k).Tidy := by
  have idle : ∀ x ∈ q.ready, x ∉ q.processing.erase k := fun x hx hp =>
    h.idle x hx (OrderedSet.mem_erase.mp hp).2
  have placed : q.isShutDown = false → ∀ x ∈ q.dirty,
      x = k ∨ x ∈ q.ready ∨ x ∈ q.processing.erase k := by
    intro hs x hx
    by_cases hxk : x = k
    · exact .inl hxk
    · rcases h.placed hs x hx with hx | hx
      · exact .inr (.inl hx)
      · exact .inr (.inr (OrderedSet.mem_erase.mpr ⟨hxk, hx⟩))
  rcases done_cases q k with ⟨hn, he⟩ | ⟨hs, hd, he⟩
  · rw [he]
    refine ⟨h.nodup, h.dirty, idle, fun hs x hx => ?_⟩
    rcases placed hs x hx with rfl | hx
    · rcases hn with hn | hn
      · exact absurd (hn.symm.trans hs) (by decide)
      · exact absurd hx hn
    · exact hx
  · rw [he]
    exact Tidy.push h.nodup h.dirty idle hd (fun hr => h.idle k hr hk)
      (fun hp => (OrderedSet.mem_erase.mp hp).1 rfl) placed

theorem Tidy.addAfter (h : q.Tidy) (now : Instant) (k : K) (d : Duration) :
    (q.addAfter now k d).1.Tidy := by
  rcases addAfter_cases q now k d with he | ⟨_, _, he⟩
  · rw [he]
    exact h.add k
  · rw [he]
    exact h.of_same rfl rfl rfl rfl

theorem Tidy.addRateLimited (h : q.Tidy) (now : Instant) (k : K) :
    (q.addRateLimited now k).1.Tidy := by
  have counted : Tidy { q with backoff := q.backoff.fail k } := h.of_same rfl rfl rfl rfl
  exact counted.addAfter now k (q.backoff.nextDelay k)

omit [Std.TransOrd K] [Std.LawfulEqOrd K] in
theorem Tidy.expire (h : q.Tidy) (k : K) (t : Instant) : (q.expire k t).Tidy := by
  obtain ⟨_, _, _, he⟩ := expire_eq q k t
  rw [he]
  exact h.of_same rfl rfl rfl rfl

theorem Tidy.deliver (h : q.Tidy) (k : K) : (q.deliver k).Tidy := by
  have drawn : Tidy { q with due := q.due.erase k } := h.of_same rfl rfl rfl rfl
  exact drawn.add k

omit [Std.TransOrd K] [Std.LawfulEqOrd K] [DecidableEq K] in
theorem Tidy.shutDown (h : q.Tidy) : q.shutDown.Tidy :=
  ⟨h.nodup, h.dirty, h.idle, fun hs => absurd hs (by simp [WorkQueue.shutDown])⟩

end PoolControl.WorkQueue
