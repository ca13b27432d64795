import Chiptune.Proofs.VoicePool.Safety

/-!
# Which slot a new voice takes

`VoicePool.slotFor` searches the pool in several ways, one behind the other. `VoicePool.Takes` is
the rule that it follows. A voice on a tone channel takes the place of the voice that sounds there.
Else the first free slot is taken. Only in a full pool a voice has to go, and then it is the oldest
of those that have been released, or the oldest of all if none has been.

The search finds a slot that the rule allows (`takes_slotFor`), and in a pool that is well kept the
rule allows no other (`Takes.unique`). From this follows what an allocation changes and what it
leaves alone (`allocate_takes_one_slot`).
-/

namespace Chiptune.VoicePool

variable {p : VoicePool} {channel : Option PsgChannel} {c : PsgChannel} {i j : Nat}
  {h : VoiceHandle} {v w : Voice}

/-! ## The rule

The rule is a relation between a pool and a slot. It is stated by what the slots hold, and it does
not say how to find out. -/

/-- Slot `i` holds a voice on the tone channel. -/
def HoldsChannel (p : VoicePool) (c : PsgChannel) (i : Nat) : Prop :=
  ∃ h v, p.get? h = some v ∧ v.psgChannel = some c ∧ h.slot = i

/-- Slot `i` holds a voice that `test` accepts, and no voice that it accepts is older. -/
def HoldsOldest (p : VoicePool) (test : Voice → Prop) (i : Nat) : Prop :=
  ∃ h v, p.get? h = some v ∧ test v ∧ h.slot = i ∧
    ∀ h' w, p.get? h' = some w → test w → h.serial ≤ h'.serial

/-- No slot is free. -/
def IsFull (p : VoicePool) : Prop := ∀ i : Nat, p.slots[i]? ≠ some none

/-- No voice has been released. -/
def AllHeld (p : VoicePool) : Prop := ∀ h v, p.get? h = some v → ¬ v.envelope.IsReleased

/-- There is no voice on the channel that is wanted, or none is wanted. -/
def IsVacant (p : VoicePool) (channel : Option PsgChannel) : Prop :=
  ∀ c, channel = some c → ∀ i, ¬ p.HoldsChannel c i

/-- Slot `i` is to be taken by a new voice on `channel`. -/
inductive Takes (p : VoicePool) (channel : Option PsgChannel) (i : Nat) : Prop
  /-- The voice on the same tone channel has to go. -/
  | replace (c : PsgChannel) (wanted : channel = some c) (held : p.HoldsChannel c i)
  /-- The first free slot is taken. -/
  | free (vacant : p.IsVacant channel) (free : p.slots[i]? = some none)
      (first : ∀ j < i, p.slots[j]? ≠ some none)
  /-- No slot is free, and of the released voices the oldest has to go. -/
  | cutReleased (vacant : p.IsVacant channel) (full : p.IsFull)
      (oldest : p.HoldsOldest (fun v => v.envelope.IsReleased) i)
  /-- No slot is free and no voice is released, and the oldest of all has to go. -/
  | cutHeld (vacant : p.IsVacant channel) (full : p.IsFull) (held : p.AllHeld)
      (oldest : p.HoldsOldest (fun _ => True) i)

/-! ## The searches

What each search finds, and what is so if it finds nothing. -/

theorem holdsChannel_of_channelSlot? (found : p.channelSlot? c = some i) :
    p.HoldsChannel c i := by
  obtain ⟨hlt, hfound, -⟩ := Array.findIdx?_eq_some_iff_getElem.mp found
  split at hfound
  · next x hx =>
    have hv : p.get? ⟨i, x.serial⟩ = some x.voice :=
      get?_eq_some_iff.mpr (Array.getElem?_eq_some_iff.mpr ⟨hlt, hx⟩)
    exact ⟨_, _, hv, of_decide_eq_true hfound, rfl⟩
  · cases hfound

theorem not_holdsChannel_of_channelSlot? (none : p.channelSlot? c = none) :
    ¬ p.HoldsChannel c i := by
  rintro ⟨h, v, hv, hc, -⟩
  have hmem := Array.mem_of_getElem? (get?_eq_some_iff.mp hv)
  have := Array.findIdx?_eq_none_iff.mp none _ hmem
  simp [hc] at this

/-- The free slot that is found is the first one. -/
theorem freeSlot?_eq_some_iff :
    p.freeSlot? = some i ↔ p.slots[i]? = some none ∧ ∀ j < i, p.slots[j]? ≠ some none := by
  unfold freeSlot?
  rw [Array.findIdx?_eq_some_iff_getElem]
  constructor
  · rintro ⟨hlt, hfree, first⟩
    refine ⟨?_, ?_⟩
    · simpa [hlt] using hfree
    · intro j hj
      have hlt' : j < p.slots.size := Nat.lt_trans hj hlt
      simpa [hlt'] using first j hj
  · rintro ⟨hfree, first⟩
    obtain ⟨hlt, hfree⟩ := Array.getElem?_eq_some_iff.mp hfree
    refine ⟨hlt, by simp [hfree], ?_⟩
    intro j hj
    have hlt' : j < p.slots.size := Nat.lt_trans hj hlt
    simpa [hlt'] using first j hj

/-- No free slot is found exactly in a full pool. -/
theorem freeSlot?_eq_none_iff : p.freeSlot? = none ↔ p.IsFull := by
  unfold freeSlot? IsFull
  rw [Array.findIdx?_eq_none_iff]
  constructor
  · intro taken i free
    simpa using taken _ (Array.mem_of_getElem? free)
  · intro full slot mem
    obtain ⟨i, hi⟩ := Array.getElem?_of_mem mem
    cases slot with
    | none => exact absurd hi (full i)
    | some x => rfl

theorem oldest?_eq_none_iff {handles : List VoiceHandle} :
    oldest? handles = none ↔ handles = [] := by
  cases handles with
  | nil => simp [oldest?]
  | cons h rest => cases e : oldest? rest <;> simp [oldest?, e]

/-- The oldest handle has the least serial number. -/
theorem serial_le_of_oldest? {handles : List VoiceHandle} (e : oldest? handles = some h) :
    ∀ h' ∈ handles, h.serial ≤ h'.serial := by
  induction handles generalizing h with
  | nil => cases e
  | cons i rest ih =>
    intro h' mem
    cases ho : oldest? rest with
    | none =>
      have alone : rest = [] := oldest?_eq_none_iff.mp ho
      rw [alone, List.mem_singleton] at mem
      simp only [oldest?, ho, Option.some.injEq] at e
      simp [mem, e]
    | some o =>
      simp only [oldest?, ho, Option.some.injEq] at e
      -- the oldest is this handle or the oldest of the others
      have rest_le : ∀ h' ∈ rest, o.serial ≤ h'.serial := ih ho
      have h_le : h.serial ≤ i.serial ∧ h.serial ≤ o.serial := by
        split at e <;> subst e <;> omega
      rcases List.mem_cons.mp mem with rfl | mem
      · exact h_le.1
      · exact Nat.le_trans h_le.2 (rest_le h' mem)

/-- A voice that is found by age is the oldest of its kind. -/
theorem holdsOldest_of_oldest? (test : Voice → Prop) [DecidablePred test]
    (e : oldest? (p.handles fun v => test v) = some h) : p.HoldsOldest test h.slot := by
  obtain ⟨v, hv, ht⟩ := mem_handles.mp (oldest?_mem e)
  refine ⟨h, v, hv, of_decide_eq_true ht, rfl, ?_⟩
  intro h' w hw tw
  exact serial_le_of_oldest? e h' (mem_handles.mpr ⟨w, hw, decide_eq_true tw⟩)

theorem not_of_oldest?_eq_none (test : Voice → Prop) [DecidablePred test]
    (e : oldest? (p.handles fun v => test v) = none) (hv : p.get? h = some v) : ¬ test v := by
  intro ht
  have mem : h ∈ p.handles fun v => test v := mem_handles.mpr ⟨v, hv, decide_eq_true ht⟩
  rw [oldest?_eq_none_iff.mp e] at mem
  cases mem

/-! ## The search follows the rule

The searches are made one behind the other, and each one relies on those before having found
nothing. -/

/-- Where a voice sounds on the channel, its slot is found. -/
theorem takes_slotFor_of_held (wanted : channel = some c) (found : p.channelSlot? c = some i) :
    p.Takes channel (p.slotFor channel) := by
  have hslot : p.slotFor channel = i := by simp [slotFor, wanted, found]
  rw [hslot]
  exact .replace c wanted (holdsChannel_of_channelSlot? found)

/-- In a full pool the victim's slot is found, for there is one. -/
theorem takes_slotFor_of_full (room : 0 < p.capacity) (vacant : p.IsVacant channel)
    (off : channel.bind p.channelSlot? = none) (taken : p.freeSlot? = none) :
    p.Takes channel (p.slotFor channel) := by
  have full : p.IsFull := freeSlot?_eq_none_iff.mp taken
  have hslot : p.slotFor channel = p.victimSlot?.getD 0 := by simp [slotFor, off, taken]
  rw [hslot, victimSlot?]
  cases released : oldest? (p.handles fun v => v.envelope.IsReleased) with
  | some h => exact .cutReleased vacant full (holdsOldest_of_oldest? _ released)
  | none =>
    have held : p.AllHeld := fun h v hv => not_of_oldest?_eq_none _ released hv
    cases all : oldest? (p.handles fun _ => true) with
    | some h =>
      refine .cutHeld vacant full held (holdsOldest_of_oldest? (fun _ => True) ?_)
      simpa using all
    | none =>
      -- the first slot is not free, so its voice would have been found
      exfalso
      obtain ⟨slot, hslot⟩ : ∃ slot, p.slots[0]? = some slot :=
        ⟨_, Array.getElem?_eq_getElem room⟩
      cases slot with
      | none => exact full 0 hslot
      | some x =>
        have hv : p.get? ⟨0, x.serial⟩ = some x.voice := get?_eq_some_iff.mpr hslot
        exact not_of_oldest?_eq_none (fun _ => True) (by simpa using all) hv trivial

/-- The search keeps to the rule. -/
theorem takes_slotFor (room : 0 < p.capacity) (channel : Option PsgChannel) :
    p.Takes channel (p.slotFor channel) := by
  cases onChannel : channel.bind p.channelSlot? with
  | some i =>
    obtain ⟨c, wanted, found⟩ := Option.bind_eq_some_iff.mp onChannel
    exact takes_slotFor_of_held wanted found
  | none =>
    have vacant : p.IsVacant channel := by
      intro c wanted i
      apply not_holdsChannel_of_channelSlot?
      simpa [wanted] using onChannel
    cases free : p.freeSlot? with
    | some i =>
      have hslot : p.slotFor channel = i := by simp [slotFor, onChannel, free]
      obtain ⟨hfree, first⟩ := freeSlot?_eq_some_iff.mp free
      rw [hslot]
      exact .free vacant hfree first
    | none => exact takes_slotFor_of_full room vacant onChannel free

/-! ## The rule leaves no choice

Two slots with a voice on one channel cannot be in a pool that is well kept, nor two voices with one
serial number. So the oldest voice is one voice. -/

theorem WellKept.holdsChannel_unique (k : p.WellKept) (hi : p.HoldsChannel c i)
    (hj : p.HoldsChannel c j) : i = j := by
  obtain ⟨h, v, hv, cv, rfl⟩ := hi
  obtain ⟨h', w, hw, cw, rfl⟩ := hj
  exact congrArg VoiceHandle.slot (k.eq_of_channel hv hw cv cw)

theorem WellKept.holdsOldest_unique {test : Voice → Prop} (k : p.WellKept)
    (hi : p.HoldsOldest test i) (hj : p.HoldsOldest test j) : i = j := by
  obtain ⟨h, v, hv, tv, rfl, leastv⟩ := hi
  obtain ⟨h', w, hw, tw, rfl, leastw⟩ := hj
  have same : h.serial = h'.serial := Nat.le_antisymm (leastv h' w hw tw) (leastw h v hv tv)
  exact congrArg VoiceHandle.slot (k.eq_of_serial hv hw same)

/-- In a pool that is well kept the rule leaves no choice. -/
theorem Takes.unique (k : p.WellKept) (hi : p.Takes channel i) (hj : p.Takes channel j) :
    i = j := by
  -- the four ways exclude one another, and each of them names one slot
  cases hi with
  | replace c wanted held =>
    cases hj with
    | replace c' wanted' held' =>
      cases wanted.symm.trans wanted'
      exact k.holdsChannel_unique held held'
    | free vacant => exact absurd held (vacant c wanted i)
    | cutReleased vacant => exact absurd held (vacant c wanted i)
    | cutHeld vacant => exact absurd held (vacant c wanted i)
  | free vacant free first =>
    cases hj with
    | replace c wanted held => exact absurd held (vacant c wanted j)
    | free _ free' first' =>
      rcases Nat.lt_trichotomy i j with hlt | rfl | hlt
      · exact absurd free (first' i hlt)
      · rfl
      · exact absurd free' (first j hlt)
    | cutReleased _ full => exact absurd free (full i)
    | cutHeld _ full => exact absurd free (full i)
  | cutReleased vacant full oldest =>
    cases hj with
    | replace c wanted held => exact absurd held (vacant c wanted j)
    | free _ free => exact absurd free (full j)
    | cutReleased _ _ oldest' => exact k.holdsOldest_unique oldest oldest'
    | cutHeld _ _ held =>
      obtain ⟨h, v, hv, released, -⟩ := oldest
      exact absurd released (held h v hv)
  | cutHeld vacant full held oldest =>
    cases hj with
    | replace c wanted held => exact absurd held (vacant c wanted j)
    | free _ free => exact absurd free (full j)
    | cutReleased _ _ oldest' =>
      obtain ⟨h, v, hv, released, -⟩ := oldest'
      exact absurd released (held h v hv)
    | cutHeld _ _ _ oldest' => exact k.holdsOldest_unique oldest oldest'

/-! ## What an allocation changes

The new voice is in the slot that the rule names, and all other slots are as they were. -/

/-- A slot holds one voice. -/
theorem eq_of_slot {h' : VoiceHandle} (hv : p.get? h = some v) (hw : p.get? h' = some w)
    (same : h.slot = h'.slot) : v = w := by
  have hslot := get?_eq_some_iff.mp hv
  rw [same, get?_eq_some_iff.mp hw] at hslot
  simp only [Option.some.injEq, HeldVoice.mk.injEq] at hslot
  exact hslot.1.symm

/-- Only the slot that was taken is another one afterwards. -/
theorem slots_allocate (p : VoicePool) (v : Voice) (i : Nat) :
    (p.allocate v).2.slots[i]? =
      if i = (p.allocate v).1.slot ∧ i < p.capacity then some (some ⟨v, p.nextSerial⟩)
      else p.slots[i]? := by
  simp only [allocate, Array.getElem?_setIfInBounds, capacity]
  grind

/-- An allocation changes one slot, and which one is settled by the rule: the slot of the voice on
the same tone channel, else the first free one, else that of the oldest released voice, else that of
the oldest voice. So a voice that has not been released is only cut by one on its own channel, or
else when no slot is free and no voice has been released. -/
theorem allocate_takes_one_slot (capacity : Nat) (actions : List Action) (v : Voice) :
    let p := (empty capacity).run actions
    let q := (p.allocate v).2
    let slot := (p.allocate v).1.slot
    (∀ i, p.Takes v.psgChannel i ↔ i = slot) ∧
    (∀ i, q.slots[i]? ≠ p.slots[i]? ↔ i = slot) ∧
    q.slots[slot]? = some (some ⟨v, p.nextSerial⟩) ∧
    ∀ h w, p.get? h = some w → q.get? h = none → ¬ w.envelope.IsReleased →
      (∃ c, v.psgChannel = some c ∧ w.psgChannel = some c) ∨ (p.IsFull ∧ p.AllHeld) := by
  intro p q slot
  have kept : p.WellKept := (wellKept_empty capacity).run actions
  have room : 0 < p.capacity := by
    rw [capacity_run]
    simp only [VoicePool.capacity, empty, Array.size_replicate]
    omega
  have taken : p.Takes v.psgChannel slot := takes_slotFor room v.psgChannel
  have hlt : slot < p.capacity := slotFor_lt room v.psgChannel
  have new : q.slots[slot]? = some (some ⟨v, p.nextSerial⟩) := by
    rw [slots_allocate, if_pos ⟨rfl, hlt⟩]
  -- what the slot held before has a lower number than the new voice
  have fresh : ∀ x, p.slots[slot]? = some (some x) → x.serial < p.nextSerial := by
    intro x hx
    have hv : p.get? ⟨slot, x.serial⟩ = some x.voice := get?_eq_some_iff.mpr hx
    exact kept.serial_lt hv
  refine ⟨?_, ?_, new, ?_⟩
  · intro i
    constructor
    · intro takes
      exact takes.unique kept taken
    · rintro rfl
      exact taken
  · intro i
    constructor
    · intro changed
      by_contra other
      apply changed
      rw [slots_allocate, if_neg fun e => other e.1]
    · rintro rfl same
      rw [new] at same
      exact Nat.lt_irrefl _ (fresh _ same.symm)
  · intro h w hw gone held
    -- a voice that is gone had the slot that was taken
    have here : h.slot = slot := by
      by_contra away
      have kept : q.get? h = some w := by
        rw [get?_eq_some_iff, slots_allocate, if_neg fun e => away e.1]
        exact get?_eq_some_iff.mp hw
      rw [gone] at kept
      cases kept
    -- and why it was taken says whether a voice that is held may have had it
    cases taken with
    | replace c wanted onChannel =>
      obtain ⟨h', u, hu, hc, same⟩ := onChannel
      cases eq_of_slot hw hu (here.trans same.symm)
      exact .inl ⟨c, wanted, hc⟩
    | free _ free =>
      rw [← here, get?_eq_some_iff.mp hw] at free
      cases free
    | cutReleased _ _ oldest =>
      obtain ⟨h', u, hu, released, same, -⟩ := oldest
      cases eq_of_slot hw hu (here.trans same.symm)
      exact absurd released held
    | cutHeld _ full held => exact .inr ⟨full, held⟩

/-- Two of three voices have been released, and the older one of them goes. -/
example :
    let v : Voice := default
    let p := (empty 3).run
      [.allocate v, .allocate v, .allocate v, .release ⟨2, 2⟩, .release ⟨1, 1⟩]
    (p.allocate v).1 = ⟨1, 3⟩ := by decide +kernel

end Chiptune.VoicePool
