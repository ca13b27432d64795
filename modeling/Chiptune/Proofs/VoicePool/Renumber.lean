import Chiptune.Proofs.VoicePool.Evolution

/-!
# Serial numbers do not matter

A pool that has been emptied goes on with the serial numbers where it was, while a new pool begins
with zero. Of the numbers themselves no operation takes notice, only of which are equal and which is
less, and so it makes no difference if all of them are raised by the same amount: every operation
commutes with `VoicePool.renumber`, and finds the same voices in the same slots.
-/

namespace Chiptune

/-- The handle with its serial number raised by `d`. -/
def VoiceHandle.renumber (d : Nat) (h : VoiceHandle) : VoiceHandle :=
  { h with serial := h.serial + d }

def HeldVoice.renumber (d : Nat) (h : HeldVoice) : HeldVoice := { h with serial := h.serial + d }

/-- The pool with all serial numbers raised by `d`. -/
def VoicePool.renumber (d : Nat) (p : VoicePool) : VoicePool where
  slots := p.slots.map (·.map (HeldVoice.renumber d))
  nextSerial := p.nextSerial + d

namespace VoicePool

variable {d : Nat} {p : VoicePool} {h : VoiceHandle}

@[simp] theorem renumber_zero (p : VoicePool) : p.renumber 0 = p := by
  have same : HeldVoice.renumber 0 = id := rfl
  simp [renumber, same]

/-! ## Lookups

A handle and its pool are renumbered together. All that is asked of a serial number in a lookup is
whether it is equal to another. -/

/-- A handle that is renumbered with its pool finds the same voice. -/
theorem held?_renumber :
    (p.renumber d).held? (h.renumber d) = (p.held? h).map (HeldVoice.renumber d) := by
  have hslot : (p.renumber d).slots[(h.renumber d).slot]? =
      (p.slots[h.slot]?).map (·.map (HeldVoice.renumber d)) := Array.getElem?_map
  unfold held?
  rw [hslot]
  cases p.slots[h.slot]? with
  | none => rfl
  | some slot =>
    cases slot with
    | none => rfl
    | some held =>
      by_cases same : held.serial = h.serial
      · simp [HeldVoice.renumber, VoiceHandle.renumber, same]
      · simp [HeldVoice.renumber, VoiceHandle.renumber, same]

@[simp] theorem get?_renumber : (p.renumber d).get? (h.renumber d) = p.get? h := by
  rw [get?, held?_renumber, Option.map_map]
  rfl

/-- A voice may be changed before the pool is renumbered, or after. -/
theorem modify_renumber (f : Voice → Voice) :
    (p.renumber d).modify (h.renumber d) f = (p.modify h f).renumber d := by
  unfold modify
  rw [held?_renumber]
  cases p.held? h with
  | none => rfl
  | some held => simp [renumber, VoiceHandle.renumber, HeldVoice.renumber]

theorem release_renumber : (p.renumber d).release (h.renumber d) = (p.release h).renumber d :=
  modify_renumber Voice.release

/-- Many voices may be released before or after handles are renumbered. -/
theorem releaseAll_renumber (handles : List VoiceHandle) (p : VoicePool) :
    (p.renumber d).releaseAll (handles.map (VoiceHandle.renumber d)) =
      (p.releaseAll handles).renumber d := by
  induction handles generalizing p with
  | nil => rfl
  | cons h handles ih =>
    show ((p.renumber d).release (h.renumber d)).releaseAll _ =
      ((p.release h).releaseAll _).renumber d
    rw [release_renumber, ih]

/-! ## All voices

Operations that go through all slots do not look at serial numbers. -/

@[simp] theorem killAll_renumber : (p.renumber d).killAll = p.killAll.renumber d := by
  simp [killAll, renumber]

@[simp] theorem mapVoices_renumber (f : Voice → Voice) :
    (p.renumber d).mapVoices f = (p.mapVoices f).renumber d := by
  simp [mapVoices, renumber, HeldVoice.renumber, Function.comp_def]

@[simp] theorem mapTrack_renumber (track : Nat) (f : Voice → Voice) :
    (p.renumber d).mapTrack track f = (p.mapTrack track f).renumber d :=
  mapVoices_renumber _

/-- Which voices are over does not depend on their numbers. -/
@[simp] theorem reapFinished_renumber :
    (p.renumber d).reapFinished = p.reapFinished.renumber d := by
  have hslot : ∀ slot : Option HeldVoice,
      (slot.map (HeldVoice.renumber d)).filter (fun h => ¬ h.voice.IsFinished) =
        (slot.filter fun h => ¬ h.voice.IsFinished).map (HeldVoice.renumber d) := by
    intro slot
    cases slot with
    | none => rfl
    | some held =>
      by_cases done : held.voice.IsFinished
      · simp [Option.filter, HeldVoice.renumber, done]
      · simp [Option.filter, HeldVoice.renumber, done]
  simp only [reapFinished, renumber, Array.map_map]
  congr 2
  funext slot
  exact hslot slot

/-- What the voices sound like does not depend on them, either. -/
@[simp] theorem output_renumber (bank : Bank) : (p.renumber d).output bank = p.output bank := by
  unfold output renumber
  rw [Array.foldl_map]
  congr 1
  funext sum slot
  cases slot <;> rfl

@[simp] theorem activeCount_renumber : (p.renumber d).activeCount = p.activeCount := by
  simp [activeCount, renumber, Array.countP_map, Function.comp_def]

/-! ## Allocation

The oldest voice is found by comparing serial numbers, and raising all of them keeps their order. -/

/-- A channel is held by the same slot. -/
theorem channelSlot?_renumber (channel : PsgChannel) :
    (p.renumber d).channelSlot? channel = p.channelSlot? channel := by
  unfold channelSlot? renumber
  rw [Array.findIdx?_map]
  congr 1
  funext slot
  cases slot <;> rfl

/-- The same slots are free. -/
theorem freeSlot?_renumber : (p.renumber d).freeSlot? = p.freeSlot? := by
  simp [freeSlot?, renumber, Array.findIdx?_map, Function.comp_def]

theorem handles_renumber (test : Voice → Bool) :
    (p.renumber d).handles test = (p.handles test).map (VoiceHandle.renumber d) := by
  unfold handles renumber
  rw [Array.toList_map, List.zipIdx_map, List.filterMap_map, List.map_filterMap]
  congr 1
  funext ⟨slot, i⟩
  cases slot with
  | none => rfl
  | some held =>
    by_cases accepted : test held.voice
    · simp [HeldVoice.renumber, VoiceHandle.renumber, accepted]
    · simp [HeldVoice.renumber, accepted]

/-- Of some handles the oldest one stays the oldest, because all numbers rise by the same. -/
theorem oldest?_map_renumber (handles : List VoiceHandle) :
    oldest? (handles.map (VoiceHandle.renumber d)) = (oldest? handles).map (.renumber d) := by
  induction handles with
  | nil => rfl
  | cons h rest ih =>
    rw [List.map_cons, oldest?, oldest?, ih]
    cases oldest? rest with
    | none => rfl
    | some o =>
      have hle : h.serial + d ≤ o.serial + d ↔ h.serial ≤ o.serial := Nat.add_le_add_iff_right
      simp only [Option.map_some, VoiceHandle.renumber, hle]
      split <;> rfl

/-- The same voice has to make room, for renumbering keeps the order of serials. -/
theorem victimSlot?_renumber : (p.renumber d).victimSlot? = p.victimSlot? := by
  unfold victimSlot?
  rw [handles_renumber, handles_renumber, oldest?_map_renumber, oldest?_map_renumber]
  cases oldest? (p.handles fun v => v.envelope.IsReleased) with
  | some released => rfl
  | none => cases oldest? (p.handles fun _ => true) <;> rfl

/-- A new voice is given the same slot. -/
theorem slotFor_renumber (channel : Option PsgChannel) :
    (p.renumber d).slotFor channel = p.slotFor channel := by
  unfold slotFor
  rw [freeSlot?_renumber, victimSlot?_renumber]
  cases channel with
  | none => rfl
  | some channel => rw [Option.bind_some, Option.bind_some, channelSlot?_renumber]

/-- A voice takes the same slot, under a number that is raised like the others. -/
theorem allocate_renumber (v : Voice) :
    (p.renumber d).allocate v = ((p.allocate v).1.renumber d, (p.allocate v).2.renumber d) := by
  unfold allocate
  rw [slotFor_renumber]
  simp [renumber, VoiceHandle.renumber, HeldVoice.renumber, Nat.add_right_comm]

end VoicePool
end Chiptune
