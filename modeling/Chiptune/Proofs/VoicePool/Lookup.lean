import Chiptune.VoicePool
import Mathlib.Data.List.Basic

/-!
# What a handle finds

`VoicePool.get?` is the view through which tracks see the pool. This file says, operation by
operation, what a handle finds afterwards, so that later proofs never look into the slots: `modify`
touches one handle, `mapVoices` every voice, `killAll` and `reapFinished` only take voices out, and
`allocate` puts a voice under a handle that nobody had before.

The second part ties the view to the lists that a display reads: `handles` are the handles that
find an accepted voice, each once, and reading them back gives the voices in their order.
-/

namespace Chiptune.VoicePool

variable {p : VoicePool} {h : VoiceHandle} {v w : Voice}

/-! ## The slot behind a handle

A handle is a slot and a serial number. It finds the voice in the slot only as long as the serial
number is still the same. -/

/-- A handle finds a voice if slot and serial are right. -/
theorem held?_eq_some_iff {x : HeldVoice} :
    p.held? h = some x ↔ p.slots[h.slot]? = some (some x) ∧ x.serial = h.serial := by
  unfold held?
  split
  · next x' hx =>
    rw [hx]
    split
    · next hs => simp only [Option.some.injEq]; exact ⟨fun e => ⟨e, e ▸ hs⟩, fun e => e.1⟩
    · next hs =>
      simp only [reduceCtorEq, Option.some.injEq, false_iff]
      rintro ⟨rfl, e⟩
      exact hs e
  · next hx =>
    simp only [reduceCtorEq, false_iff]
    exact fun e => hx x e.1

/-- A handle finds a voice exactly when its slot holds it under the handle's own serial number. -/
theorem get?_eq_some_iff : p.get? h = some v ↔ p.slots[h.slot]? = some (some ⟨v, h.serial⟩) := by
  unfold get?
  rw [Option.map_eq_some_iff]
  constructor
  · rintro ⟨x, hx, rfl⟩
    obtain ⟨hslot, hserial⟩ := held?_eq_some_iff.mp hx
    rw [hslot, ← hserial]
  · intro hslot
    exact ⟨⟨v, h.serial⟩, held?_eq_some_iff.mpr ⟨hslot, rfl⟩, rfl⟩

theorem voices_mapVoices (p : VoicePool) (f : Voice → Voice) :
    (p.mapVoices f).voices = p.voices.map f := by
  simp [voices, mapVoices, List.filterMap_map, List.map_filterMap, Function.comp_def]

/-! ## Lookups after each operation

One lemma for each operation, and each tells what every handle finds, not only the one that was
used. -/

/-- Changing the voice of one handle changes what that handle finds and nothing else. -/
theorem get?_modify (f : Voice → Voice) (h' : VoiceHandle) :
    (p.modify h f).get? h' = if h' = h then (p.get? h').map f else p.get? h' := by
  unfold modify
  split
  · next x hx =>
    obtain ⟨hslot, hserial⟩ := held?_eq_some_iff.mp hx
    -- the handle is held, and its slot is written to
    have hfind : p.get? h = some x.voice := by simp [get?, hx]
    have hbound : h.slot < p.slots.size := (Array.getElem?_eq_some_iff.mp hslot).1
    ext w
    by_cases e : h' = h
    · subst e
      rw [if_pos rfl, hfind, get?_eq_some_iff]
      simp [hbound, hserial]
    · rw [if_neg e]
      by_cases es : h.slot = h'.slot
      · -- the slot is taken under another serial number, before and after
        have hne : h'.serial ≠ h.serial := fun e' => e (by cases h; cases h'; simp_all)
        rw [get?_eq_some_iff, get?_eq_some_iff, ← es, hslot]
        have hother : x.serial ≠ h'.serial := fun e' => hne (e'.symm.trans hserial)
        obtain ⟨y, serial⟩ := x
        simp only [Array.getElem?_setIfInBounds, hbound, if_true, Option.some.injEq,
          HeldVoice.mk.injEq] at hother ⊢
        exact ⟨fun e' => absurd e'.2 hother, fun e' => absurd e'.2 hother⟩
      · rw [get?_eq_some_iff, get?_eq_some_iff]
        simp [es]
  · next hx =>
    -- the handle is stale, and nothing changes
    have hfind : p.get? h = none := by simp [get?, hx]
    split
    · next e => rw [e, hfind]; rfl
    · rfl

/-- A released handle finds its voice in its release, and every other handle what it found. -/
theorem get?_release (h' : VoiceHandle) :
    (p.release h).get? h' = if h' = h then (p.get? h').map Voice.release else p.get? h' :=
  get?_modify Voice.release h'

/-- A change to all voices is seen through every handle. -/
@[simp] theorem get?_mapVoices (f : Voice → Voice) :
    (p.mapVoices f).get? h = (p.get? h).map f := by
  ext w
  rw [get?_eq_some_iff, Option.map_eq_some_iff]
  simp only [mapVoices, Array.getElem?_map, Option.map_eq_some_iff]
  constructor
  · rintro ⟨slot, hslot, x, rfl, hx⟩
    obtain ⟨v, serial⟩ := x
    simp only [HeldVoice.mk.injEq] at hx
    exact ⟨v, get?_eq_some_iff.mpr (hx.2 ▸ hslot), hx.1⟩
  · rintro ⟨v, hv, rfl⟩
    exact ⟨_, get?_eq_some_iff.mp hv, _, rfl, rfl⟩

/-- No handle finds a voice when all have been cut. -/
@[simp] theorem get?_killAll : p.killAll.get? h = none := by
  rw [Option.eq_none_iff_forall_ne_some]
  intro v hv
  rw [get?_eq_some_iff] at hv
  simp [killAll, Array.getElem?_replicate] at hv

@[simp] theorem get?_empty (capacity : Nat) : (empty capacity).get? h = none := by
  rw [Option.eq_none_iff_forall_ne_some]
  intro v hv
  rw [get?_eq_some_iff] at hv
  simp [empty, Array.getElem?_replicate] at hv

/-- Reaping finds nothing new: what is found afterwards was there, and is not finished. -/
theorem get?_reapFinished :
    p.reapFinished.get? h = some v ↔ p.get? h = some v ∧ ¬ v.IsFinished := by
  rw [get?_eq_some_iff, get?_eq_some_iff]
  simp only [reapFinished, Array.getElem?_map, Option.map_eq_some_iff]
  constructor
  · rintro ⟨slot, hslot, hx⟩
    obtain ⟨rfl, hfin⟩ := Option.filter_eq_some_iff.mp hx
    exact ⟨hslot, by simpa using hfin⟩
  · rintro ⟨hslot, hfin⟩
    exact ⟨_, hslot, Option.filter_eq_some_iff.mpr ⟨rfl, by simpa using hfin⟩⟩

/-- After an allocation a handle finds the new voice under the new handle, or what it found before
outside the slot that was taken. -/
theorem get?_allocate (hw : (p.allocate v).2.get? h = some w) :
    (h = (p.allocate v).1 ∧ w = v) ∨
      (h.slot ≠ (p.allocate v).1.slot ∧ p.get? h = some w) := by
  rw [get?_eq_some_iff] at hw
  simp only [allocate, Array.getElem?_setIfInBounds] at hw
  split at hw
  · next e =>
    split at hw
    · simp only [Option.some.injEq, HeldVoice.mk.injEq] at hw
      left
      obtain ⟨slot, serial⟩ := h
      exact ⟨VoiceHandle.mk.injEq .. ▸ ⟨e.symm, hw.2.symm⟩, hw.1.symm⟩
    · cases hw
  · next e => exact Or.inr ⟨fun e' => e e'.symm, get?_eq_some_iff.mpr hw⟩

/-! ## Serial numbers

Only an allocation uses a serial number up. -/

@[simp] theorem serial_allocate : (p.allocate v).1.serial = p.nextSerial := rfl

@[simp] theorem nextSerial_allocate : (p.allocate v).2.nextSerial = p.nextSerial + 1 := rfl

@[simp] theorem nextSerial_release : (p.release h).nextSerial = p.nextSerial := by
  unfold release modify
  split <;> rfl

/-! ## The number of slots

No operation adds a slot or takes one away. -/

@[simp] theorem capacity_killAll : p.killAll.capacity = p.capacity := by
  simp [capacity, killAll]

@[simp] theorem capacity_reapFinished : p.reapFinished.capacity = p.capacity := by
  simp [capacity, reapFinished]

@[simp] theorem capacity_release : (p.release h).capacity = p.capacity := by
  unfold release modify
  split
  · simp [capacity]
  · rfl

@[simp] theorem capacity_allocate : (p.allocate v).2.capacity = p.capacity := by
  simp [capacity, allocate]

/-! ## Lists of handles

Searches for a voice go through the list of handles whose voices pass a test. -/

/-- The handles of a pool are those that find a voice. -/
theorem mem_handles {test : Voice → Bool} :
    h ∈ p.handles test ↔ ∃ v, p.get? h = some v ∧ test v = true := by
  unfold handles
  rw [List.mem_filterMap]
  constructor
  · rintro ⟨⟨slot, i⟩, hmem, hx⟩
    simp only [Option.bind_eq_some_iff] at hx
    obtain ⟨x, rfl, hx⟩ := hx
    have hslot := List.mem_zipIdx_iff_getElem?.mp hmem
    split at hx
    · next ht =>
      cases hx
      exact ⟨x.voice, get?_eq_some_iff.mpr (by simpa using hslot), ht⟩
    · cases hx
  · rintro ⟨v, hv, ht⟩
    have hslot := get?_eq_some_iff.mp hv
    refine ⟨(some ⟨v, h.serial⟩, h.slot), ?_, by simp [ht]⟩
    rw [List.mem_zipIdx_iff_getElem?]
    simpa using hslot

/-- The handles are listed in the order of their slots, so none comes twice. -/
theorem nodup_handles (p : VoicePool) (test : Voice → Bool) : (p.handles test).Nodup := by
  unfold handles
  -- slots are numbered, and each handle carries the number of its slot
  have hslots : (p.slots.toList.zipIdx).Pairwise fun a b => a.2 ≠ b.2 := by
    have : (List.range' 0 p.slots.toList.length).Nodup := List.nodup_range'
    rw [← List.zipIdx_map_snd, List.Nodup, List.pairwise_map] at this
    exact this
  rw [List.Nodup, List.pairwise_filterMap]
  refine hslots.imp ?_
  rintro ⟨a, i⟩ ⟨b, j⟩ hij x hx y hy rfl
  simp only [Option.bind_eq_some_iff] at hx hy
  obtain ⟨a, rfl, hx⟩ := hx
  obtain ⟨b, rfl, hy⟩ := hy
  split at hx
  · split at hy
    · have e := hx.trans hy.symm
      simp only [Option.some.injEq, VoiceHandle.mk.injEq] at e
      exact hij e.1
    · cases hy
  · cases hx

/-- Looking the handles of the accepted voices up gives these voices back, in their order. -/
theorem filterMap_get?_handles (p : VoicePool) (test : Voice → Bool) :
    (p.handles test).filterMap p.get? = p.voices.filter test := by
  have hlist : p.slots.toList = p.slots.toList.zipIdx.map Prod.fst := by simp
  unfold handles voices
  rw [List.filterMap_filterMap, List.filter_filterMap]
  conv_rhs => rw [hlist, List.filterMap_map]
  refine List.filterMap_congr ?_
  rintro ⟨slot, i⟩ hmem
  have hslot := List.mem_zipIdx_iff_getElem?.mp hmem
  cases slot with
  | none => rfl
  | some x =>
    have hv : p.get? ⟨i, x.serial⟩ = some x.voice :=
      get?_eq_some_iff.mpr (by simpa using hslot)
    by_cases ht : test x.voice <;> simp [ht, hv, Option.filter]

end Chiptune.VoicePool
