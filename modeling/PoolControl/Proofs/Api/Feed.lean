import PoolControl.Proofs.Api.Effect

/-! What a feed tells is not ahead of the store.

A tracker puts an object in its store before any feed tells of it, and every later object of
the same key has a larger resource version. So whoever takes an event from a feed, however
late, finds in the store what the event tells or something newer (`Settled`). `Succeeds` says
what a tracker can become by any requests, and whatever a request comes to is of that kind. -/
namespace PoolControl

variable {K : Type} [Resource K]

/-- The resource version of an object. -/
def Resource.version (x : K) : Nat := (Resource.metadata x).resourceVersion

namespace Tracker

/-- What is stored under a key, if anything is, is at least as new as an object of that key. -/
def AtLeast (t : Tracker K) (x : K) : Prop :=
  ∀ y, t.get? (Resource.key x) = some y → Resource.version x ≤ Resource.version y

/-- An event that tells of nothing newer than the store. -/
structure Settled (t : Tracker K) (e : Event K) : Prop where
  version : Resource.version e.object ≤ t.version
  stored : t.AtLeast e.object

/-- Every object stands under its own key with a version that was given out. -/
structure Dated (t : Tracker K) : Prop where
  keyed : t.Keyed
  version : ∀ k x, t.get? k = some x → Resource.version x ≤ t.version

theorem dated_empty : (∅ : Tracker K).Dated := ⟨keyed_empty, fun _ _ h => by cases h⟩

/-- An event that waits in a feed. -/
def Waits (t : Tracker K) (e : Event K) : Prop := ∃ f ∈ t.feeds, e ∈ f.events

/-- What a tracker can become: newer objects have larger versions, and every event that comes
to wait is settled. -/
structure Succeeds (t t' : Tracker K) : Prop where
  dated : t'.Dated
  version : t.version ≤ t'.version
  newer : ∀ k x, t'.get? k = some x → t.get? k = some x ∨ t.version < Resource.version x
  waits : ∀ e, t'.Waits e → t.Waits e ∨ t'.Settled e

variable {t t' t'' : Tracker K}

/-- **An event that is settled stays settled.** -/
theorem Settled.succeeds {e : Event K} (h : t.Settled e) (s : t.Succeeds t') : t'.Settled e := by
  refine ⟨Nat.le_trans h.version s.version, fun y hy => ?_⟩
  rcases s.newer _ y hy with old | new
  · exact h.stored y old
  · exact Nat.le_of_lt (Nat.lt_of_le_of_lt h.version new)

theorem Succeeds.refl (h : t.Dated) : t.Succeeds t :=
  ⟨h, Nat.le_refl _, fun _ _ hx => .inl hx, fun _ he => .inl he⟩

theorem Succeeds.trans (h : t.Succeeds t') (h' : t'.Succeeds t'') : t.Succeeds t'' := by
  refine ⟨h'.dated, Nat.le_trans h.version h'.version, fun k x hx => ?_, fun e he => ?_⟩
  · rcases h'.newer k x hx with old | new
    · exact h.newer k x old
    · exact .inr (Nat.lt_of_le_of_lt h.version new)
  · rcases h'.waits e he with old | new
    · exact (h.waits e old).imp id fun settled => settled.succeeds h'
    · exact .inr new

/-! ### Requests -/

/-- An event may be published if its object is gone, stored already, or newer than all
before. -/
theorem succeeds_publish (h : t.Dated) {v : Nat} (hv : t.version ≤ v) {e : Event K}
    (he : Resource.version e.object ≤ v)
    (hl : e.left? = none ∨ t.get? e.key = some e.object ∨ t.version < Resource.version e.object) :
    t.Succeeds ({ t with version := v }.publish e) := by
  have get (k : Key) : ({ t with version := v }.publish e).get? k =
      if k = e.key then e.left? else t.get? k := get?_publish _ e k
  -- A removal may keep the version as it is, as it leaves no object that would need a new one.
  refine ⟨⟨Keyed.publish (h.keyed.of_store rfl) e, fun k x hx => ?_⟩, hv, fun k x hx => ?_,
    fun e' he' => ?_⟩
  · rw [get] at hx
    split at hx
    · exact Event.object_of_left? hx ▸ he
    · exact Nat.le_trans (h.version k x hx) hv
  · rw [get] at hx
    split at hx
    · rename_i hk
      rw [hx, Event.object_of_left? hx, ← hk] at hl
      exact hl.resolve_left (by simp)
    · exact .inl hx
  · obtain ⟨f', hf', he'⟩ := he'
    obtain ⟨f, hf, rfl⟩ := List.mem_map.mp hf'
    rcases List.mem_append.mp he' with old | new
    · exact .inl ⟨f, hf, old⟩
    · rw [List.mem_singleton.mp new]
      refine .inr ⟨he, fun y hy => ?_⟩
      rw [get, if_pos (show Resource.key e.object = e.key from rfl)] at hy
      exact Nat.le_of_eq (congrArg Resource.version (Event.object_of_left? hy))

theorem version_stamped (v : Nat) (now : Timestamp) (x : K) :
    Resource.version (stamped v now x) = v :=
  congrArg Metadata.resourceVersion (metadata_stamped v now x)

theorem version_changed (v : Nat) (old : K) (change : K → K) :
    Resource.version (changed v old change) = v :=
  congrArg Metadata.resourceVersion (metadata_changed v old change)

theorem version_marked (v : Nat) (now : Timestamp) (x : K) :
    Resource.version (marked v now x) = v :=
  congrArg Metadata.resourceVersion (metadata_marked v now x)

theorem Effect.succeeds (h : t.Dated) {r : Request K} {reply : Except ApiError (Option K)}
    (e : t.Effect r reply t') : t.Succeeds t' := by
  have commit {e : Event K} (new : Resource.version e.object = t.version + 1) :
      t.Succeeds (t.commit e) :=
    succeeds_publish h (Nat.le_succ _) (Nat.le_of_eq new)
      (.inr (.inr (Nat.lt_of_lt_of_eq (Nat.lt_succ_self _) new.symm)))
  cases e with
  | taken | missing | idle | kept => exact .refl h
  | created => exact commit (version_stamped ..)
  | changed | released => exact commit (version_changed ..)
  | @removed now k old found =>
    exact succeeds_publish h (Nat.le_refl _) (h.version k old found) (.inl rfl)
  | marked => exact commit (version_marked ..)

theorem succeeds_answer (h : t.Dated) (r : Request K) : t.Succeeds (t.answer r) :=
  (t.effect r).succeeds h

/-- What is listed is stored. -/
theorem Keyed.get?_of_mem (h : t.Keyed) {x : K} (hx : x ∈ t.list) :
    t.get? (Resource.key x) = some x := by
  obtain ⟨⟨k, y⟩, hy, rfl⟩ := List.mem_map.mp hx
  have found : t.get? k = some y := OrderedMap.get?_eq_some_iff.mpr hy
  rw [h k y found]
  exact found

/-- Telling stored objects again leaves them as they are. -/
theorem succeeds_retell (h : t.Dated) {xs : List K}
    (hx : ∀ x ∈ xs, t.get? (Resource.key x) = some x) :
    t.Succeeds (xs.foldl (fun t x => t.publish (.generic x)) t) := by
  induction xs generalizing t with
  | nil => exact .refl h
  | cons x xs ih =>
    have stored := hx x (List.mem_cons_self ..)
    have first : t.Succeeds (t.publish (.generic x)) :=
      succeeds_publish h (Nat.le_refl _) (h.version _ x stored) (.inr (.inl stored))
    refine first.trans (ih first.dated fun y hy => ?_)
    rw [get?_publish]
    split
    · rename_i hk
      rw [← hx y (List.mem_cons_of_mem _ hy), hk]
      exact stored.symm
    · exact hx y (List.mem_cons_of_mem _ hy)

theorem succeeds_resync (h : t.Dated) : t.Succeeds t.resync :=
  succeeds_retell h fun _ hx => h.keyed.get?_of_mem hx

/-! ### Feeds -/

theorem Dated.of_store (h : t.Dated) (hs : t'.store = t.store) (hv : t'.version = t.version) :
    t'.Dated := by
  refine ⟨h.keyed.of_store hs, fun k x hx => ?_⟩
  rw [hv]
  exact h.version k x (show t.store.get? k = some x from hs ▸ hx)

/-- A new feed begins with what is stored. -/
theorem succeeds_watch (h : t.Dated) (id : Nat) : t.Succeeds (t.watch id) := by
  refine ⟨h.of_store rfl rfl, Nat.le_refl _, fun _ _ hx => .inl hx, ?_⟩
  rintro e ⟨f, hf, he⟩
  rcases List.mem_append.mp hf with old | new
  · exact .inl ⟨f, old, he⟩
  · rw [List.mem_singleton.mp new] at he
    obtain ⟨x, hx, rfl⟩ := List.mem_map.mp he
    have stored : t.get? (Resource.key x) = some x := h.keyed.get?_of_mem hx
    refine .inr ⟨h.version _ x stored, fun y hy => ?_⟩
    rw [Option.some.inj (stored.symm.trans hy)]
    exact Nat.le_refl _

theorem succeeds_advance (h : t.Dated) (id n : Nat) : t.Succeeds (t.advance id n) := by
  refine ⟨h.of_store rfl rfl, Nat.le_refl _, fun _ _ hx => .inl hx, ?_⟩
  rintro e ⟨f', hf', he⟩
  obtain ⟨f, hf, rfl⟩ := List.mem_map.mp hf'
  refine .inl ⟨f, hf, ?_⟩
  split at he
  · exact List.mem_of_mem_drop he
  · exact he

/-- Removing a feed leaves the others as they are. -/
theorem succeeds_unwatch (h : t.Dated) (id : Nat) : t.Succeeds (t.unwatch id) := by
  refine ⟨h.of_store rfl rfl, Nat.le_refl _, fun _ _ hx => .inl hx, ?_⟩
  rintro e ⟨f, hf, he⟩
  exact .inl ⟨f, (List.mem_filter.mp hf).1, he⟩

omit [Resource K] in
theorem waits_of_pending {id : Nat} {e : Event K} (h : e ∈ t.pending id) : t.Waits e := by
  obtain ⟨f, hf, he⟩ := List.mem_flatMap.mp h
  refine ⟨f, hf, ?_⟩
  split at he
  · exact he
  · cases he

end Tracker

end PoolControl
