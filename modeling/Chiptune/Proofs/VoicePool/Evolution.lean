import Chiptune.Proofs.VoicePool.Later

/-!
# How a pool moves on

Whatever happens to a pool, it keeps its slots, its voices keep their track and key, a released one
stays released, and a new voice comes under a serial number that was not given out before.
`VoicePool.Evolves` says so of two states of a pool, and names the tracks that may have started new
voices in between. It holds of every operation below and can be chained, so a proof about a long
piece of playing only has to look at its ends.

Most operations start no voice and give out no serial number. Then all that is left to know is what
has become of the voice of each handle (`Evolves.of_later`).
-/

namespace Chiptune

/-! ## One voice at two times

Track and key stay, and a release is for good. This is a preorder, so that it can be put together
along operations. -/

/-- `w` is the voice `v` at a later time. -/
structure Voice.Continues (v w : Voice) : Prop where
  track_eq : w.track = v.track
  key_eq : w.key = v.key
  isReleased : v.envelope.IsReleased → w.envelope.IsReleased

theorem Envelope.isReleased_release (e : Envelope) : e.release.IsReleased := by
  unfold release
  split
  · assumption
  · split
    · exact Or.inr rfl
    · exact Or.inl rfl

/-- A released envelope stays released. -/
theorem Envelope.isReleased_step {e : Envelope} (h : e.IsReleased) : e.step.IsReleased := by
  rcases h with h | h
  · simp only [step, h, stepRelease]
    split
    · exact Or.inr rfl
    · exact Or.inl rfl
  · rw [step_of_done h]
    exact Or.inr h

namespace Voice.Continues

variable {u v w : Voice}

/-- A change that leaves note and envelope alone continues the voice. -/
theorem of_sameNote (same : v.SameNote w) : v.Continues w :=
  ⟨same.track_eq, same.key_eq, fun released => same.envelope_eq ▸ released⟩

theorem refl (v : Voice) : v.Continues v := of_sameNote (.refl v)

theorem trans (h : u.Continues v) (h' : v.Continues w) : u.Continues w :=
  ⟨h'.track_eq.trans h.track_eq, h'.key_eq.trans h.key_eq, h'.isReleased ∘ h.isReleased⟩

instance : IsPreorder Voice Voice.Continues where
  refl := refl
  trans _ _ _ := trans

theorem release (v : Voice) : v.Continues v.release :=
  ⟨rfl, rfl, fun _ => v.envelope.isReleased_release⟩

theorem stepEnvelope (v : Voice) : v.Continues v.stepEnvelope :=
  ⟨rfl, rfl, Envelope.isReleased_step⟩

end Voice.Continues

/-! ## One pool at two times

Every voice that is found later was there before, or has a serial number that was not given out. New
voices belong to tracks that were allowed to start some. -/

/-- `q` is the pool `p` at a later time, and only tracks in `movers` have started voices since. -/
structure VoicePool.Evolves (movers : Nat → Prop) (p q : VoicePool) : Prop where
  capacity_eq : q.capacity = p.capacity
  nextSerial_le : p.nextSerial ≤ q.nextSerial
  /-- A voice was there before, or it is new and belongs to a track that may start voices. -/
  found : ∀ {h w}, q.get? h = some w →
    (∃ v, p.get? h = some v ∧ v.Continues w) ∨ (p.nextSerial ≤ h.serial ∧ movers w.track)

namespace VoicePool

variable {movers : Nat → Prop} {p q r : VoicePool}

theorem Evolves.refl (p : VoicePool) : p.Evolves movers p :=
  ⟨rfl, Nat.le_refl _, fun {_ w} hw => Or.inl ⟨w, hw, .refl w⟩⟩

theorem Evolves.trans (h : p.Evolves movers q) (h' : q.Evolves movers r) :
    p.Evolves movers r := by
  refine ⟨h'.capacity_eq.trans h.capacity_eq, Nat.le_trans h.nextSerial_le h'.nextSerial_le,
    fun {i w} hw => ?_⟩
  rcases h'.found hw with ⟨v, hv, hvw⟩ | ⟨hserial, hmover⟩
  · rcases h.found hv with ⟨u, hu, huv⟩ | ⟨hserial, hmover⟩
    · exact Or.inl ⟨u, hu, huv.trans hvw⟩
    · exact Or.inr ⟨hserial, hvw.track_eq ▸ hmover⟩
  · exact Or.inr ⟨Nat.le_trans h.nextSerial_le hserial, hmover⟩

/-- What few tracks have done, more tracks may have done. -/
theorem Evolves.mono {more : Nat → Prop} (h : p.Evolves movers q)
    (weaker : ∀ i, movers i → more i) : p.Evolves more q := by
  refine ⟨h.capacity_eq, h.nextSerial_le, fun {i w} hw => ?_⟩
  rcases h.found hw with old | ⟨hserial, hmover⟩
  · exact Or.inl old
  · exact Or.inr ⟨hserial, weaker _ hmover⟩

/-! ## Each operation

Most operations change voices in place, and for them it is enough that each voice continues. -/

/-- A pool evolves if it keeps its slots and goes on with the voice of every handle. -/
theorem Evolves.of_later (capacity : q.capacity = p.capacity) (serial : q.nextSerial = p.nextSerial)
    (later : ∀ h, Later Voice.Continues h p q) : p.Evolves movers q :=
  ⟨capacity, Nat.le_of_eq serial.symm, fun {h w} found => .inl (later h w found)⟩

theorem evolves_mapVoices (p : VoicePool) {f : Voice → Voice}
    (hf : ∀ v : Voice, v.Continues (f v)) : p.Evolves movers (p.mapVoices f) :=
  .of_later (capacity_mapVoices p f) rfl fun _ => later_mapVoices hf

theorem evolves_mapTrack (p : VoicePool) (track : Nat) {f : Voice → Voice}
    (hf : ∀ v : Voice, v.Continues (f v)) : p.Evolves movers (p.mapTrack track f) :=
  .of_later (capacity_mapVoices p _) rfl fun _ => later_mapTrack hf

theorem evolves_releaseAll (p : VoicePool) (handles : List VoiceHandle) :
    p.Evolves movers (p.releaseAll handles) :=
  .of_later capacity_releaseAll nextSerial_releaseAll fun _ =>
    later_releaseAll fun _ => Voice.Continues.release

theorem evolves_reapFinished (p : VoicePool) : p.Evolves movers p.reapFinished :=
  .of_later capacity_reapFinished rfl fun _ => later_reapFinished

/-- A voice that comes in is the only one that is new, and its serial number is. -/
theorem evolves_allocate (p : VoicePool) {v : Voice} (hv : movers v.track) :
    p.Evolves movers (p.allocate v).2 := by
  refine ⟨capacity_allocate, by simp, fun {i w} hw => ?_⟩
  rcases get?_allocate hw with ⟨rfl, rfl⟩ | ⟨-, old⟩
  · exact Or.inr ⟨by simp, hv⟩
  · exact Or.inl ⟨w, old, .refl w⟩

/-! ## Releasing many voices

A track releases several notes at once. Their voices, if they are there afterwards, are all
released. -/

/-- Of the handles that were released, none finds a voice that is not in its release. -/
theorem isReleased_of_mem {handles : List VoiceHandle} {h : VoiceHandle} {w : Voice}
    (mem : h ∈ handles) (hw : (p.releaseAll handles).get? h = some w) :
    w.envelope.IsReleased := by
  induction handles generalizing p with
  | nil => cases mem
  | cons i handles ih =>
    rcases List.mem_cons.mp mem with rfl | mem
    · -- released first; the releases that follow can only continue the voice
      have later : Later Voice.Continues h (p.release h) ((p.release h).releaseAll handles) :=
        later_releaseAll fun _ => .release
      obtain ⟨v, hv, continues⟩ := later w hw
      rw [get?_release, if_pos rfl] at hv
      obtain ⟨u, -, rfl⟩ := Option.map_eq_some_iff.mp hv
      exact continues.isReleased u.envelope.isReleased_release
    · exact ih mem hw

end VoicePool
end Chiptune
