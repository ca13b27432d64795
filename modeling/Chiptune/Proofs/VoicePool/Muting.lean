import Chiptune.Proofs.VoicePool.Evolution

/-!
# Muted voices go on

A pool takes no notice of which of its voices are muted. `VoicePool.unmuted` is the pool with all of
them to be heard, and every operation commutes with it: a voice is put into the slot, found, moved
on, released and reaped that it would be if nothing were muted.

What is lost with the mutes is nothing else, so a pool can be told from its unmuted form and the
mutes of its voices (`VoicePool.eq_of_unmuted_eq`).
-/

namespace Chiptune

def HeldVoice.unmuted (h : HeldVoice) : HeldVoice := { h with voice := h.voice.setMuted false }

/-- The pool with all its voices to be heard. -/
def VoicePool.unmuted (p : VoicePool) : VoicePool := p.mapVoices (·.setMuted false)

namespace VoicePool

variable {p q : VoicePool} {h : VoiceHandle} {v : Voice} {f : Voice → Voice}

theorem slots_unmuted : p.unmuted.slots = p.slots.map (·.map HeldVoice.unmuted) := rfl

/-! ## All voices

Operations that go through all slots, voice by voice. -/

/-- A change that does not look at the mute switch may be made before or after all voices are
unmuted. -/
theorem mapVoices_unmuted (p : VoicePool)
    (same : ∀ v, f (v.setMuted false) = (f v).setMuted false) :
    p.unmuted.mapVoices f = (p.mapVoices f).unmuted := by
  simp [unmuted, mapVoices, Function.comp_def, same]

theorem mapTrack_unmuted (p : VoicePool) (track : Nat)
    (same : ∀ v, f (v.setMuted false) = (f v).setMuted false) :
    p.unmuted.mapTrack track f = (p.mapTrack track f).unmuted := by
  apply p.mapVoices_unmuted
  intro v
  show (if v.track = track then f (v.setMuted false) else v.setMuted false) = _
  rw [same]
  split <;> rfl

theorem advance_unmuted (bank : Bank) (p : VoicePool) :
    p.unmuted.advance bank = (p.advance bank).unmuted :=
  p.mapVoices_unmuted fun v => v.advance_setMuted bank false

theorem stepEnvelopes_unmuted (p : VoicePool) : p.unmuted.stepEnvelopes = p.stepEnvelopes.unmuted :=
  p.mapVoices_unmuted fun _ => rfl

@[simp] theorem killAll_unmuted : p.unmuted.killAll = p.killAll.unmuted := by
  simp [killAll, unmuted, mapVoices]

/-- Voices that have become silent are taken out whether they are muted or not. -/
theorem reapFinished_unmuted (p : VoicePool) : p.unmuted.reapFinished = p.reapFinished.unmuted := by
  have hslot : ∀ slot : Option HeldVoice,
      (slot.map HeldVoice.unmuted).filter (fun h => ¬ h.voice.IsFinished) =
        (slot.filter fun h => ¬ h.voice.IsFinished).map HeldVoice.unmuted := by
    intro slot
    rw [Option.filter_map]
    rfl
  have hslots : p.unmuted.reapFinished.slots = p.reapFinished.unmuted.slots := by
    rw [slots_unmuted]
    simp only [reapFinished, slots_unmuted, Array.map_map]
    congr 1
    funext slot
    exact hslot slot
  exact congrArg (VoicePool.mk · p.nextSerial) hslots

/-- Whatever voices are muted or not, without the mutes the pool is the same. -/
theorem unmuted_mapTrack_setMuted (p : VoicePool) (track : Nat) (muted : Bool) :
    (p.mapTrack track (·.setMuted muted)).unmuted = p.unmuted := by
  have hvoice : ∀ v : Voice,
      (if v.track = track then v.setMuted muted else v).setMuted false = v.setMuted false := by
    intro v
    split <;> rfl
  simp [mapTrack, unmuted, mapVoices, Function.comp_def, hvoice]

/-! ## Single voices

Operations on the voice of a handle. Serial numbers have nothing to do with mutes. -/

/-- A handle finds the same voice, unmuted. -/
theorem held?_unmuted : p.unmuted.held? h = (p.held? h).map HeldVoice.unmuted := by
  have hslot : p.unmuted.slots[h.slot]? = (p.slots[h.slot]?).map (·.map HeldVoice.unmuted) := by
    rw [slots_unmuted, Array.getElem?_map]
  unfold held?
  rw [hslot]
  cases p.slots[h.slot]? with
  | none => rfl
  | some slot =>
    cases slot with
    | none => rfl
    | some held =>
      show (if held.serial = h.serial then some held.unmuted else none) =
        (if held.serial = h.serial then some held else none).map HeldVoice.unmuted
      split <;> rfl

/-- A release does not look at the mute switch. -/
theorem release_unmuted : p.unmuted.release h = (p.release h).unmuted := by
  unfold release modify
  rw [held?_unmuted]
  cases p.held? h with
  | none => rfl
  | some held =>
    refine congrArg (VoicePool.mk · p.nextSerial) ?_
    simp only [slots_unmuted, Array.map_setIfInBounds]
    rfl

theorem releaseAll_unmuted (handles : List VoiceHandle) (p : VoicePool) :
    p.unmuted.releaseAll handles = (p.releaseAll handles).unmuted := by
  induction handles generalizing p with
  | nil => rfl
  | cons h handles ih =>
    show (p.unmuted.release h).releaseAll handles = _
    rw [release_unmuted, ih]
    rfl

/-! ## Allocation

Every search that finds a slot for a new voice gives the same one. -/

/-- The search by channel does not look at the mute switch. -/
theorem channelSlot?_unmuted (channel : PsgChannel) :
    p.unmuted.channelSlot? channel = p.channelSlot? channel := by
  unfold channelSlot?
  rw [slots_unmuted, Array.findIdx?_map]
  congr 1
  funext slot
  cases slot <;> rfl

theorem freeSlot?_unmuted : p.unmuted.freeSlot? = p.freeSlot? := by
  simp [freeSlot?, slots_unmuted, Array.findIdx?_map, Function.comp_def]

theorem handles_unmuted {test : Voice → Bool}
    (same : ∀ v : Voice, test (v.setMuted false) = test v) :
    p.unmuted.handles test = p.handles test := by
  unfold handles
  rw [slots_unmuted, Array.toList_map, List.zipIdx_map, List.filterMap_map]
  congr 1
  funext ⟨slot, i⟩
  cases slot with
  | none => rfl
  | some held =>
    show (if test (held.voice.setMuted false) then _ else _) = if test held.voice then _ else _
    rw [same]
    rfl

/-- The voice that has to go is the same one. -/
theorem victimSlot?_unmuted : p.unmuted.victimSlot? = p.victimSlot? := by
  unfold victimSlot?
  rw [handles_unmuted fun _ => rfl, handles_unmuted fun _ => rfl]

/-- A new voice takes the same slot, whichever voices are muted. -/
theorem slotFor_unmuted (channel : Option PsgChannel) :
    p.unmuted.slotFor channel = p.slotFor channel := by
  unfold slotFor
  rw [freeSlot?_unmuted, victimSlot?_unmuted]
  cases channel with
  | none => rfl
  | some channel => rw [Option.bind_some, Option.bind_some, channelSlot?_unmuted]

/-- A voice gets the handle that it would get if nothing were muted. -/
theorem allocate_unmuted (v : Voice) :
    p.unmuted.allocate (v.setMuted false) = ((p.allocate v).1, (p.allocate v).2.unmuted) := by
  have hslots : p.unmuted.slots.setIfInBounds (p.slotFor v.psgChannel)
      (some (HeldVoice.unmuted ⟨v, p.nextSerial⟩)) =
        (p.slots.setIfInBounds (p.slotFor v.psgChannel) (some ⟨v, p.nextSerial⟩)).map
          (·.map HeldVoice.unmuted) := by
    rw [slots_unmuted, Array.map_setIfInBounds]
    rfl
  unfold allocate
  rw [show (v.setMuted false).psgChannel = v.psgChannel from rfl, slotFor_unmuted]
  exact congrArg (fun slots => ((⟨_, p.nextSerial⟩ : VoiceHandle),
    VoicePool.mk slots (p.nextSerial + 1))) hslots

/-! ## What the mutes tell apart

A pool is known by what it is without its mutes and by the mutes of its voices. -/

/-- Pools are the same if they are but for the mutes, and the voices have the same mutes. -/
theorem eq_of_unmuted_eq (unmuted : p.unmuted = q.unmuted)
    (muted : ∀ h v w, p.get? h = some v → q.get? h = some w → v.muted = w.muted) : p = q := by
  have hslots : p.unmuted.slots = q.unmuted.slots := congrArg slots unmuted
  have hserial : p.unmuted.nextSerial = q.unmuted.nextSerial := congrArg nextSerial unmuted
  have hsame : p.slots = q.slots := by
    apply Array.ext_getElem?
    intro i
    have hslot : p.unmuted.slots[i]? = q.unmuted.slots[i]? := by rw [hslots]
    rw [slots_unmuted, slots_unmuted, Array.getElem?_map, Array.getElem?_map] at hslot
    -- slot by slot; only two slots that hold a voice can differ at all
    match hp : p.slots[i]?, hq : q.slots[i]? with
    | none, none => rfl
    | none, some _ | some _, none => simp [hp, hq] at hslot
    | some none, some none => rfl
    | some none, some (some _) | some (some _), some none => simp [hp, hq] at hslot
    | some (some x), some (some y) =>
      obtain ⟨v, serial⟩ := x
      obtain ⟨w, serial'⟩ := y
      simp only [hp, hq, Option.map_some, Option.some.injEq, HeldVoice.unmuted,
        HeldVoice.mk.injEq] at hslot
      obtain ⟨hvoice, rfl⟩ := hslot
      have hmuted := muted ⟨i, serial⟩ v w (get?_eq_some_iff.mpr hp) (get?_eq_some_iff.mpr hq)
      have hvw : v = w := by
        calc v
          _ = (v.setMuted false).setMuted v.muted := rfl
          _ = (w.setMuted false).setMuted w.muted := by rw [hvoice, hmuted]
          _ = w := rfl
      rw [hvw]
  cases p
  cases q
  exact VoicePool.mk.injEq .. ▸ ⟨hsame, hserial⟩

end VoicePool
end Chiptune
