import Chiptune.MasterVolume
import Chiptune.Proofs.Checked.Voice
import Chiptune.Proofs.VoicePool.Evolution
import Chiptune.Proofs.VoicePool.Safety

/-!
# The voice pool in words

A pool has no more slots than a word of 16 bits can tell apart, and even if every one of them plays
at full level, the sums of a frame fit 32 bits. The only number in a pool that can run full is the
serial number of the next voice.
-/

namespace Chiptune

open Checked

namespace VoicePool

/-! ## Calculations

Slots are numbered in 16 bits, serial numbers in 64, and the sums of a frame are kept in 32 bits
with a sign. -/

def checkedAllocate (p : VoicePool) (v : Voice) : Checked (VoiceHandle × VoicePool) := do
  let slot := p.slotFor v.psgChannel
  let slots ← store p.slots slot (some ⟨v, p.nextSerial⟩)
  let nextSerial ← count .serial (p.nextSerial + 1)
  return (⟨← word 16 slot, p.nextSerial⟩, { slots, nextSerial })

/-- Change the voice in a slot, if there is one. -/
def checkedSlot (f : Voice → Checked Voice) : Option HeldVoice → Checked (Option HeldVoice)
  | some h => do return some { h with voice := ← f h.voice }
  | none => return none

def checkedMapVoices (p : VoicePool) (f : Voice → Checked Voice) : Checked VoicePool := do
  let slots ← p.slots.toList.mapM (checkedSlot f)
  return { p with slots := slots.toArray }

def checkedMapTrack (p : VoicePool) (track : Nat) (f : Voice → Checked Voice) :
    Checked VoicePool :=
  p.checkedMapVoices fun v => if v.track = track then f v else return v

/-- Sound the voices in some slots for one frame, on top of the sums of those before. -/
def checkedRenderSlots (bank : Bank) :
    List (Option HeldVoice) → (sums : Int × Int) → Checked ((Int × Int) × List (Option HeldVoice))
  | [], sums => return (sums, [])
  | none :: rest, sums => do
    let (sums, rest) ← checkedRenderSlots bank rest sums
    return (sums, none :: rest)
  | some h :: rest, sums => do
    let (sides, voice) ← h.voice.checkedRender bank
    let left ← signed 32 (sums.1 + sides.1)
    let right ← signed 32 (sums.2 + sides.2)
    let (sums, rest) ← checkedRenderSlots bank rest (left, right)
    return (sums, some { h with voice } :: rest)

/-- The sums of the present frame, and the voices one frame later. -/
def checkedRender (bank : Bank) (volume : MasterVolume) (p : VoicePool) :
    Checked (Frame × VoicePool) := do
  let (sums, slots) ← checkedRenderSlots bank p.slots.toList (0, 0)
  let left ← signed 32 ((← signed 64 (sums.1 * volume.level)) / 256)
  let right ← signed 32 ((← signed 64 (sums.2 * volume.level)) / 256)
  return (.saturating left right, { p with slots := slots.toArray })

/-! ## What fits

A pool fits if its voices do and there are no more slots than numbers for them. Serial numbers are
not part of it: whether there are any left is for the counter to say. -/

structure Fits (p : VoicePool) : Prop where
  capacity_pos : 0 < p.capacity
  capacity_le : p.capacity ≤ greatestCapacity
  voice : ∀ {h v}, p.get? h = some v → v.Fits

variable {p q : VoicePool} {bank : Bank}

/-- A pool without voices fits. -/
theorem fits_of_gone (pos : 0 < p.capacity) (le : p.capacity ≤ greatestCapacity)
    (gone : ∀ h, p.get? h = none) : p.Fits where
  capacity_pos := pos
  capacity_le := le
  voice {h v} hv := by
    rw [gone h] at hv
    cases hv

/-- An empty pool holds no voice that could be out of bounds. -/
theorem fits_empty (capacity : Nat) : (empty capacity).Fits := by
  refine fits_of_gone ?_ ?_ fun _ => get?_empty capacity
  · simp only [VoicePool.capacity, empty, Array.size_replicate]
    omega
  · simp only [VoicePool.capacity, empty, Array.size_replicate, greatestCapacity]
    omega

namespace Fits

theorem killAll (f : p.Fits) : p.killAll.Fits := by
  have same : p.killAll.capacity = p.capacity := by simp [VoicePool.capacity, VoicePool.killAll]
  exact fits_of_gone (same ▸ f.capacity_pos) (same ▸ f.capacity_le) fun _ => get?_killAll

/-- A change that keeps a voice within bounds may be made to all voices. -/
theorem mapVoices (f : p.Fits) {g : Voice → Voice} (hg : ∀ {v}, v.Fits → (g v).Fits) :
    (p.mapVoices g).Fits where
  capacity_pos := (capacity_mapVoices p g).symm ▸ f.capacity_pos
  capacity_le := (capacity_mapVoices p g).symm ▸ f.capacity_le
  voice {h v} hv := by
    rw [get?_mapVoices] at hv
    obtain ⟨u, hu, rfl⟩ := Option.map_eq_some_iff.mp hv
    exact hg (f.voice hu)

/-- A change that keeps a voice within bounds may be made to the voices of one track. -/
theorem mapTrack (f : p.Fits) (track : Nat) {g : Voice → Voice} (hg : ∀ {v}, v.Fits → (g v).Fits) :
    (p.mapTrack track g).Fits := by
  refine f.mapVoices fun h => ?_
  split
  · exact hg h
  · exact h

theorem stepEnvelopes (f : p.Fits) : p.stepEnvelopes.Fits := f.mapVoices Voice.Fits.stepEnvelope

theorem advance (hbank : bank.Fits) (f : p.Fits) : (p.advance bank).Fits :=
  f.mapVoices (Voice.Fits.advance hbank)

/-- To take voices out keeps the rest within bounds. -/
theorem reapFinished (f : p.Fits) : p.reapFinished.Fits where
  capacity_pos := capacity_reapFinished.symm ▸ f.capacity_pos
  capacity_le := capacity_reapFinished.symm ▸ f.capacity_le
  voice hv := f.voice (get?_reapFinished.mp hv).1

theorem release (f : p.Fits) (h : VoiceHandle) : (p.release h).Fits where
  capacity_pos := capacity_release.symm ▸ f.capacity_pos
  capacity_le := capacity_release.symm ▸ f.capacity_le
  voice {i v} hv := by
    rw [get?_release] at hv
    split at hv
    · obtain ⟨u, hu, rfl⟩ := Option.map_eq_some_iff.mp hv
      exact (f.voice hu).release
    · exact f.voice hv

theorem releaseAll (f : p.Fits) (handles : List VoiceHandle) : (p.releaseAll handles).Fits := by
  induction handles generalizing p with
  | nil => exact f
  | cons h handles ih => exact ih (f.release h)

/-- A voice within bounds may be put in. -/
theorem allocate (f : p.Fits) {v : Voice} (hv : v.Fits) : (p.allocate v).2.Fits where
  capacity_pos := capacity_allocate.symm ▸ f.capacity_pos
  capacity_le := capacity_allocate.symm ▸ f.capacity_le
  voice {h w} hw := by
    rcases get?_allocate hw with ⟨-, rfl⟩ | ⟨-, old⟩
    · exact hv
    · exact f.voice old

/-- The voices in the slots are the ones that handles find. -/
theorem of_mem_slots (f : p.Fits) {h : HeldVoice} (mem : some h ∈ p.slots.toList) :
    h.voice.Fits := by
  obtain ⟨i, hi⟩ := List.mem_iff_getElem?.mp mem
  rw [Array.getElem?_toList] at hi
  have found : p.slots[(⟨i, h.serial⟩ : VoiceHandle).slot]? = _ := hi
  exact f.voice (get?_eq_some_iff.mpr found)

end Fits

/-! ## The results of the calculations

An allocation counts a serial number. Changes to voices are calculated voice by voice. -/

/-- An allocation in words is the allocation, as long as there are serial numbers left. -/
theorem gives_checkedAllocate (f : p.Fits) (v : Voice) :
    Gives (p.checkedAllocate v) (p.allocate v) := by
  have room := slotFor_lt f.capacity_pos v.psgChannel
  have hcapacity := f.capacity_le
  unfold greatestCapacity at hcapacity
  unfold checkedAllocate
  dsimp only
  rw [store_eq room, ok_bind]
  refine (Gives.count _ _).bind ?_
  rw [word_eq (by omega), ok_bind, pure_eq]
  exact .ok _

/-- What is computed in words for each voice is computed in words for the pool. -/
theorem checkedMapVoices_eq {f : Voice → Checked Voice} {g : Voice → Voice} (hp : p.Fits)
    (h : ∀ v : Voice, v.Fits → f v = .ok (g v)) :
    p.checkedMapVoices f = .ok (p.mapVoices g) := by
  have slots : p.slots.toList.mapM (checkedSlot f) =
      .ok (p.slots.toList.map (·.map fun h => { h with voice := g h.voice })) := by
    refine mapM_eq fun slot mem => ?_
    cases slot with
    | none => rfl
    | some held =>
      rw [checkedSlot, h _ (hp.of_mem_slots mem)]
      rfl
  rw [checkedMapVoices, slots, ok_bind, pure_eq, mapVoices, ← Array.toList_map,
    Array.toArray_toList]

theorem checkedMapTrack_eq {f : Voice → Checked Voice} {g : Voice → Voice} (hp : p.Fits)
    (track : Nat) (h : ∀ v : Voice, v.Fits → f v = .ok (g v)) :
    p.checkedMapTrack track f = .ok (p.mapTrack track g) := by
  refine checkedMapVoices_eq hp fun v hv => ?_
  split
  · exact h v hv
  · rfl

/-! ### Frames

The sums of a frame grow slot by slot, and after `n` voices they are at most `n` times as large as
one voice can make them. With as many slots as there may be, this still fits 32 bits. -/

/-- The sums of a frame, slot after slot. -/
def outputOnto (bank : Bank) (slots : List (Option HeldVoice)) (sums : Int × Int) : Int × Int :=
  slots.foldl (fun sums held =>
    match held with
    | some h => (sums.1 + (h.voice.output bank).1, sums.2 + (h.voice.output bank).2)
    | none => sums) sums

/-- The output of a pool, slot by slot. -/
theorem output_eq (bank : Bank) (p : VoicePool) :
    p.output bank = outputOnto bank p.slots.toList (0, 0) :=
  (Array.foldl_toList _).symm

/-- A sum to which at most `n` voices at full level have been added. -/
def WithinVoices (n : Nat) (sums : Int × Int) : Prop :=
  (-(32512 * n : Int) ≤ sums.1 ∧ sums.1 ≤ 32512 * n) ∧
    (-(32512 * n : Int) ≤ sums.2 ∧ sums.2 ≤ 32512 * n)

/-- All voices are sounded, up to one that cannot work out its place. -/
theorem checkedRenderSlots_eq (hbank : bank.Fits) {slots : List (Option HeldVoice)}
    (h : ∀ held, some held ∈ slots → held.voice.Fits) {n : Nat} {sums : Int × Int}
    (within : WithinVoices n sums) (room : n + slots.length ≤ greatestCapacity) :
    (checkedRenderSlots bank slots sums =
      if ∀ v ∈ slots.filterMap (·.map HeldVoice.voice), v.PlaceFits bank then
        .ok (outputOnto bank slots sums,
          slots.map (·.map fun h => { h with voice := h.voice.advance bank }))
      else .error .overflow) ∧
      WithinVoices (n + slots.length) (outputOnto bank slots sums) := by
  -- on the slots that are left; `n` counts those that were sounded
  induction slots generalizing n sums with
  | nil => exact ⟨rfl, within⟩
  | cons slot slots ih =>
    rw [List.length_cons] at room
    have others := fun held mem => h held (List.mem_cons_of_mem slot mem)
    rw [List.length_cons, ← Nat.add_assoc, Nat.add_right_comm]
    cases slot with
    | none =>
      have wider : WithinVoices (n + 1) sums := by
        unfold WithinVoices at within ⊢
        omega
      have same : (∀ v ∈ (none :: slots).filterMap (·.map HeldVoice.voice), v.PlaceFits bank) ↔
          ∀ v ∈ slots.filterMap (·.map HeldVoice.voice), v.PlaceFits bank := Iff.rfl
      obtain ⟨hrest, hsums⟩ := ih others wider (by omega)
      refine ⟨?_, hsums⟩
      rw [checkedRenderSlots, hrest, if_congr same rfl rfl]
      split <;> rfl
    | some held =>
      have fits := h held List.mem_cons_self
      have bounds := Voice.output_bounds bank fits.leveled
      have wider : WithinVoices (n + 1)
          (sums.1 + (held.voice.output bank).1, sums.2 + (held.voice.output bank).2) := by
        unfold WithinVoices at within ⊢
        omega
      have same : (∀ v ∈ (some held :: slots).filterMap (·.map HeldVoice.voice),
          v.PlaceFits bank) ↔ held.voice.PlaceFits bank ∧
          ∀ v ∈ slots.filterMap (·.map HeldVoice.voice), v.PlaceFits bank := List.forall_mem_cons
      obtain ⟨hrest, hsums⟩ := ih others wider (by omega)
      refine ⟨?_, hsums⟩
      rw [checkedRenderSlots, if_congr same rfl rfl]
      by_cases place : held.voice.PlaceFits bank
      · unfold WithinVoices greatestCapacity at *
        rw [Voice.checkedRender_eq hbank fits place, ok_bind]
        dsimp only
        rw [signed_eq (by omega) (by omega), ok_bind, signed_eq (by omega) (by omega), ok_bind,
          hrest, if_congr (and_iff_right place) rfl rfl]
        split <;> rfl
      · rw [Voice.checkedRender_overflow place, if_neg fun all => place all.1]
        rfl

/-- One side under the master volume. -/
theorem volume_bounds {x : Int} (volume : MasterVolume) (low : -(32512 * 65535) ≤ x)
    (high : x ≤ 32512 * 65535) :
    -(32512 * 65535 * 256) ≤ x * volume.level ∧ x * volume.level ≤ 32512 * 65535 * 256 := by
  have hlevel := volume.level_le
  have bottom : -(32512 * 65535) * volume.level ≤ x * volume.level :=
    Int.mul_le_mul_of_nonneg_right low (Int.natCast_nonneg _)
  have top : x * volume.level ≤ 32512 * 65535 * volume.level :=
    Int.mul_le_mul_of_nonneg_right high (Int.natCast_nonneg _)
  omega

/-- A pool is mixed in words exactly when the place of each voice in its recording fits its word. -/
theorem checkedRender_eq (hbank : bank.Fits) (volume : MasterVolume) (f : p.Fits) :
    p.checkedRender bank volume =
      if p.PlacesFit bank then .ok (p.render bank volume) else .error .overflow := by
  have start : WithinVoices 0 (0, 0) := by simp [WithinVoices]
  have hcapacity : p.slots.toList.length ≤ greatestCapacity := f.capacity_le
  have fits : ∀ held, some held ∈ p.slots.toList → held.voice.Fits :=
    fun _ mem => f.of_mem_slots mem
  -- the voices come first, and their sum is within the bounds of so many voices
  obtain ⟨hslots, within⟩ :=
    checkedRenderSlots_eq hbank fits start (by rw [Nat.zero_add]; exact hcapacity)
  have condition : (∀ v ∈ p.slots.toList.filterMap (·.map HeldVoice.voice), v.PlaceFits bank) ↔
      p.PlacesFit bank := Iff.rfl
  rw [← output_eq] at hslots within
  rw [if_congr condition rfl rfl] at hslots
  unfold greatestCapacity at hcapacity
  obtain ⟨⟨leftLow, leftHigh⟩, rightLow, rightHigh⟩ := within
  -- then the volume, which makes neither side louder
  obtain ⟨low, high⟩ := volume_bounds (x := (p.output bank).1) volume (by omega) (by omega)
  obtain ⟨low', high'⟩ := volume_bounds (x := (p.output bank).2) volume (by omega) (by omega)
  rw [checkedRender, hslots]
  split
  · rw [ok_bind]
    dsimp only
    rw [signed_eq (by omega) (by omega), ok_bind, signed_eq (by omega) (by omega), ok_bind,
      signed_eq (by omega) (by omega), ok_bind, signed_eq (by omega) (by omega), ok_bind, pure_eq,
      ← Array.toList_map, Array.toArray_toList]
    rfl
  · rfl

/-- In a short recording every place fits. -/
theorem placesFit_of_short (short : bank.Short) (p : VoicePool) : p.PlacesFit bank :=
  fun v _ _ => Generator.placeFits_of_short short v.generator

end VoicePool
end Chiptune
