import PoolControl.Proofs.Api.Log
import PoolControl.Proofs.Resource.Form

/-! What was asked of an object, and what a tracker has on it.

`Life` keeps count of what was asked of an object since it was created: how many writes changed
something besides its metadata and status, and whether its deletion was requested. The count is
made from the requests and the objects that they met, by what is written of them (`form`), and
`Fits` compares it with what the tracker has on the object. It holds of a new object and every
request keeps it (`Effect.fits`), so it holds along any run in which no object is created that is
already to be deleted (`Sound.fits_run`). -/
namespace PoolControl.Tracker

open Resource

variable {K : Type} [Resource K] {t t' : Tracker K} {r : Request K}
  {reply : Except ApiError (Option K)}

/-! ### Lives -/

/-- What was asked of an object since it was created. -/
structure Life where
  /-- How many writes changed something besides metadata and status. -/
  changes : Nat
  /-- Whether its deletion was requested. -/
  doomed : Bool
deriving DecidableEq

namespace Life

/-- The life of a new object. -/
def new : Life := ⟨0, false⟩

/-- Counts a change of the object that is stored. -/
def written (l : Life) (stored : Option K) (change : K → K) : Life :=
  match stored with
  | some x => if form x = form (change x) then l else { l with changes := l.changes + 1 }
  | none => l

/-- Counts a request, given the object that is stored under its key. -/
def answer (l : Life) (stored : Option K) : Request K → Life
  | .create _ _ => if stored.isSome then l else new
  | .update x => l.written stored fun _ => x
  | .modify _ change => l.written stored change
  | .delete _ _ => { l with doomed := true }

/-- The generation that a life comes to. -/
def generation (l : Life) : Int := 1 + l.changes + if l.doomed then 1 else 0

theorem answer_of_change {l : Life} {change : K → K} (asks : r.change? = some change)
    (stored : Option K) : l.answer stored r = l.written stored change := by
  cases r <;> cases asks <;> rfl

/-- Whether an object is as its life says. One that is to be deleted is still held. -/
structure Fits (l : Life) (x : K) : Prop where
  generation : (metadata x).generation = l.generation
  deleting : (metadata x).isDeleting = l.doomed
  held : (metadata x).isDeleting = true → (metadata x).finalizers ≠ []

end Life

/-- Whether a request creates no object that is already to be deleted. -/
def Request.Unmarked : Request K → Prop
  | .create _ x => (metadata x).deleted = none
  | _ => True

instance : DecidablePred (Request.Unmarked (K := K))
  | .create _ x => inferInstanceAs (Decidable ((metadata x).deleted = none))
  | .update _ | .modify _ _ | .delete _ _ => instDecidableTrue

/-- Whether an act creates no object that is already to be deleted. -/
def Act.Unmarked : Act K → Prop
  | .request r => r.Unmarked
  | _ => True

instance : DecidablePred (Act.Unmarked (K := K))
  | .request r => inferInstanceAs (Decidable r.Unmarked)
  | .resync | .watch _ | .unwatch _ | .take _ _ => instDecidableTrue

/-- The life of the object under a key after an act. -/
def Life.next (l : Life) (t : Tracker K) (k : Key) : Act K → Life
  | .request r => if r.key = k then l.answer (t.get? k) r else l
  | _ => l

/-- The life of the object under a key after a run. -/
def life (t : Tracker K) (k : Key) (l : Life) : List (Act K) → Life
  | [] => l
  | a :: rest => (t.next a).life k (l.next t k a) rest

/-! ### What one request does -/

/-- The spec is told apart by what is written of it. -/
theorem sameSpec_proposed [Lawful K] (old : K) (change : K → K) :
    sameSpec old (proposed old change) = true ↔ form old = form (change old) := by
  rw [proposed, mapMetadata, sameSpec_withMetadata, Lawful.sameSpec_iff]

namespace Life

variable {l : Life}

theorem fits_new {x : K} (unmarked : (metadata x).deleted = none) (v : Nat) (now : Timestamp) :
    new.Fits (stamped v now x) := by
  have present : (metadata (stamped v now x)).isDeleting = false := by
    rw [metadata_stamped]
    exact congrArg Option.isSome unmarked
  refine ⟨?_, present, fun deleting => by cases deleting.symm.trans present⟩
  rw [metadata_stamped]
  rfl

/-- A write raises the generation if it counts. -/
theorem Fits.changed [Lawful K] {old : K} (fits : l.Fits old) {v : Nat} {change : K → K}
    (stays : (metadata (changed v old change)).isDeleting = true →
      (metadata (changed v old change)).finalizers ≠ []) :
    (l.written (some old) change).Fits (changed v old change) := by
  refine ⟨?_, ?_, stays⟩ <;> rw [metadata_changed, written]
  · simp only [sameSpec_proposed, fits.generation]
    split
    · exact Int.add_zero _
    · simp only [Life.generation]
      omega
  · refine Eq.trans fits.deleting ?_
    split <;> rfl

theorem Fits.marked {old : K} (fits : l.Fits old) (held : (metadata old).finalizers ≠ [])
    (present : (metadata old).isDeleting = false) (v : Nat) (now : Timestamp) :
    { l with doomed := true }.Fits (marked v now old) := by
  refine ⟨?_, ?_, fun _ => ?_⟩ <;> rw [metadata_marked]
  · simp only [fits.generation, Life.generation, ← fits.deleting, present]
    exact congrArg (· + 1) (Int.add_zero _)
  · rfl
  · exact held

end Life

/-- **A request leaves an object as its life says.** -/
theorem Effect.fits [Lawful K] (e : t.Effect r reply t') (unmarked : r.Unmarked) {l : Life}
    (keyed : t.Keyed) (fits : ∀ x, t.get? r.key = some x → l.Fits x) {y : K}
    (left : t'.get? r.key = some y) : (l.answer (t.get? r.key) r).Fits y := by
  cases e with
  | @taken now x _ found =>
    have stays : l.answer (t.get? (key x)) (.create now x) = l := by
      rw [found]
      rfl
    exact stays.symm ▸ fits y left
  | missing _ free => cases free.symm.trans left
  | @created now x free =>
    cases left?_of_told left (key_stamped ..)
    rw [show t.get? (Request.create now x).key = none from free]
    exact Life.fits_new unmarked _ now
  | @idle _ change old asks found same =>
    cases found.symm.trans left
    have kept := (Lawful.sameSpec_iff _ _).mp (Lawful.sameSpec_of_same _ _ same)
    have stays : form y = form (change y) := kept.symm.trans (Lawful.form_withMetadata ..)
    rw [Life.answer_of_change asks, found, Life.written, if_pos stays]
    exact fits y found
  | changed asks found _ stays =>
    cases left?_of_told left ((key_changed ..).trans (keyed _ _ found))
    rw [Life.answer_of_change asks, found]
    exact (fits _ found).changed stays
  | released _ found => cases left?_of_told left ((key_changed ..).trans (keyed _ _ found))
  | removed found => cases left?_of_told left (keyed _ _ found)
  | @kept now k old found held deleting =>
    cases found.symm.trans left
    have doomed : l.doomed = true := (fits y found).deleting.symm.trans deleting
    have stays : { l with doomed := true } = l := by rw [← doomed]
    exact stays.symm ▸ fits y found
  | @marked now k old found held present =>
    cases left?_of_told left ((key_marked ..).trans (keyed _ _ found))
    exact (fits _ found).marked held present _ now

/-! ### Runs -/

theorem Sound.fits_next [Lawful K] (h : t.Sound) {k : Key} {l : Life} {a : Act K}
    (unmarked : a.Unmarked) (fits : ∀ x, t.get? k = some x → l.Fits x) {x : K}
    (found : (t.next a).get? k = some x) : (l.next t k a).Fits x := by
  cases a with
  | request r =>
    rw [Life.next]
    split
    · rename_i own
      subst own
      exact (t.effect r).fits unmarked h.dated.keyed fits found
    · rename_i other
      exact fits x (((t.effect r).others h.dated.keyed (Ne.symm other)).symm.trans found)
  | resync => exact fits x ((h.get?_resync k).symm.trans found)
  | _ => exact fits x found

/-- **Every object is as its life says**, after any run. -/
theorem Sound.fits_run [Lawful K] (h : t.Sound) {k : Key} {l : Life} {acts : List (Act K)}
    (unmarked : ∀ a ∈ acts, a.Unmarked) (fits : ∀ x, t.get? k = some x → l.Fits x) {x : K}
    (found : (t.run acts).get? k = some x) : (t.life k l acts).Fits x := by
  induction acts generalizing t l with
  | nil => exact fits x found
  | cons a rest ih =>
    obtain ⟨first, later⟩ := List.forall_mem_cons.mp unmarked
    exact ih (h.next a) later (fun _ stored => h.fits_next first fits stored) found

end PoolControl.Tracker
