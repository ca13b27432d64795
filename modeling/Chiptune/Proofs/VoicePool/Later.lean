import Chiptune.Proofs.VoicePool.Lookup
import Mathlib.Order.Defs.Unbundled

/-!
# One handle at two times

Much that is said of a pool is said of one voice at a time: whatever a handle finds later, it found
before, and something is known of what has become of the voice. `VoicePool.Later` is that statement
for any relation `R` between a voice and what becomes of it. Whether an operation on a pool keeps
to `R` is then a question about one voice only, and it is answered here once for all relations.

Tuning, mixing, muting and sounding leave a voice the same note (`Voice.SameNote`), so a relation
that looks at nothing but the note and its envelope has them all at once.
-/

namespace Chiptune

/-! ## One voice at two times

Most of what happens to a voice leaves note and envelope alone. The relations on voices that are
lifted to pools all contain this one. -/

/-- `w` is the voice `v`, of the same track and key and at the same place of its envelope. -/
structure Voice.SameNote (v w : Voice) : Prop where
  track_eq : w.track = v.track
  key_eq : w.key = v.key
  envelope_eq : w.envelope = v.envelope

namespace Voice.SameNote

theorem refl (v : Voice) : v.SameNote v := ⟨rfl, rfl, rfl⟩

theorem retune (v : Voice) (bend : Int) (range sampleRate : Nat) :
    v.SameNote (v.retune bend range sampleRate) := ⟨rfl, rfl, rfl⟩

theorem setMix (v : Voice) (volume : Nat) (pan : Int) : v.SameNote (v.setMix volume pan) :=
  ⟨rfl, rfl, rfl⟩

theorem setMuted (v : Voice) (muted : Bool) : v.SameNote (v.setMuted muted) := ⟨rfl, rfl, rfl⟩

/-- A voice that does not play is not touched, and one that does only moves its generator. -/
theorem advance (bank : Bank) (v : Voice) : v.SameNote (v.advance bank) := by
  unfold Voice.advance
  split
  · exact ⟨rfl, rfl, rfl⟩
  · exact refl v

end Voice.SameNote

/-! ## One handle at two times

The lift of a relation on voices, handle by handle. Nothing is said of voices that are gone. -/

namespace VoicePool

variable {R : Voice → Voice → Prop} {h : VoiceHandle} {p q r : VoicePool}

/-- What the handle finds in `q` is what has become, in the sense of `R`, of what it found in
`p`. -/
def Later (R : Voice → Voice → Prop) (h : VoiceHandle) (p q : VoicePool) : Prop :=
  ∀ w, q.get? h = some w → ∃ v, p.get? h = some v ∧ R v w

theorem Later.refl [Std.Refl R] (h : VoiceHandle) (p : VoicePool) : Later R h p p :=
  fun w found => ⟨w, found, refl_of R w⟩

theorem Later.trans [IsTrans Voice R] (a : Later R h p q) (b : Later R h q r) :
    Later R h p r := by
  intro w found
  obtain ⟨v, hv, second⟩ := b w found
  obtain ⟨u, hu, first⟩ := a v hv
  exact ⟨u, hu, trans_of R first second⟩

theorem later_mapVoices {f : Voice → Voice} (hf : ∀ v, R v (f v)) :
    Later R h p (p.mapVoices f) := by
  intro w found
  rw [get?_mapVoices] at found
  obtain ⟨v, hv, rfl⟩ := Option.map_eq_some_iff.mp found
  exact ⟨v, hv, hf v⟩

/-- The voices of other tracks are left as they are. -/
theorem later_mapTrack [Std.Refl R] {track : Nat} {f : Voice → Voice} (hf : ∀ v, R v (f v)) :
    Later R h p (p.mapTrack track f) := by
  refine later_mapVoices fun v => ?_
  split
  · exact hf v
  · exact refl_of R v

/-- Reaping takes voices out, but does nothing to those that stay. -/
theorem later_reapFinished [Std.Refl R] : Later R h p p.reapFinished :=
  fun w found => ⟨w, (get?_reapFinished.mp found).1, refl_of R w⟩

/-- A voice that comes in has a serial number of its own. -/
theorem later_allocate [Std.Refl R] (given : h.serial < p.nextSerial) (v : Voice) :
    Later R h p (p.allocate v).2 := by
  intro w found
  rcases get?_allocate found with ⟨rfl, -⟩ | ⟨-, old⟩
  · exact absurd given (Nat.lt_irrefl _)
  · exact ⟨w, old, refl_of R w⟩

/-- Only the release of its own handle is seen by a voice. -/
theorem later_release [Std.Refl R] {i : VoiceHandle} (hR : h = i → ∀ v : Voice, R v v.release) :
    Later R h p (p.release i) := by
  intro w found
  rw [get?_release] at found
  split at found
  · next own =>
    obtain ⟨v, hv, rfl⟩ := Option.map_eq_some_iff.mp found
    exact ⟨v, hv, hR own v⟩
  · exact ⟨w, found, refl_of R w⟩

/-- Release the voices of some handles, one after the other. -/
def releaseAll (p : VoicePool) (handles : List VoiceHandle) : VoicePool :=
  handles.foldl release p

@[simp] theorem capacity_releaseAll {handles : List VoiceHandle} :
    (p.releaseAll handles).capacity = p.capacity := by
  induction handles generalizing p with
  | nil => rfl
  | cons i handles ih => exact ih.trans capacity_release

@[simp] theorem nextSerial_releaseAll {handles : List VoiceHandle} :
    (p.releaseAll handles).nextSerial = p.nextSerial := by
  induction handles generalizing p with
  | nil => rfl
  | cons i handles ih => exact ih.trans nextSerial_release

theorem later_releaseAll [IsPreorder Voice R] {handles : List VoiceHandle}
    (hR : h ∈ handles → ∀ v : Voice, R v v.release) : Later R h p (p.releaseAll handles) := by
  induction handles generalizing p with
  | nil => exact .refl h p
  | cons i handles ih =>
    have first : Later R h p (p.release i) := later_release fun own => hR (own ▸ List.mem_cons_self)
    exact first.trans (ih fun mem => hR (List.mem_cons_of_mem i mem))

end VoicePool
end Chiptune
