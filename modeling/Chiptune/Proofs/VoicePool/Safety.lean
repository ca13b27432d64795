import Chiptune.Proofs.VoicePool.Lookup
import Mathlib.Data.Option.Basic

/-!
# Handles are safe

Slots are used again and again: a new voice may replace the one on its tone channel, take a free
slot, or steal one. Meanwhile tracks keep handles of voices that may be long gone. That this does no
harm rests on three facts about a pool, which `VoicePool.WellKept` collects: no serial number stands
in two slots, all of them are below the next one, and no tone channel has two voices.

Every `Action` on a pool keeps these facts (`WellKept.act`), and what a handle finds after an action
is what it found before, changed as the action says, or the voice that was just put in
(`get?_act`). From these two, `handles_stay_safe` follows for every run.
-/

namespace Chiptune

/-- A change of how a voice sounds. -/
inductive Adjustment
  | pitch (bend : Int) (range sampleRate : Nat)
  | mix (volume : Nat) (pan : Int)
  | mute (muted : Bool)

def Adjustment.apply : Adjustment → Voice → Voice
  | pitch bend range sampleRate, v => v.retune bend range sampleRate
  | mix volume pan, v => v.setMix volume pan
  | mute muted, v => v.setMuted muted

namespace VoicePool

/-- What can be done with a pool. -/
inductive Action
  | allocate (v : Voice)
  | release (h : VoiceHandle)
  | kill (h : VoiceHandle)
  | killAll
  | stepEnvelopes
  | reapFinished
  /-- Sound all voices for one frame. -/
  | render (bank : Bank)
  | adjust (h : VoiceHandle) (change : Adjustment)
  | adjustTrack (track : Nat) (change : Adjustment)

/-- The pool after an action. -/
def act (p : VoicePool) : Action → VoicePool
  | .allocate v => (p.allocate v).2
  | .release h => p.release h
  | .kill h => p.kill h
  | .killAll => p.killAll
  | .stepEnvelopes => p.stepEnvelopes
  | .reapFinished => p.reapFinished
  | .render bank => p.advance bank
  | .adjust h change => p.modify h change.apply
  | .adjustTrack track change => p.mapTrack track change.apply

/-- The pool after some actions, one after the other. -/
def run (p : VoicePool) (actions : List Action) : VoicePool := actions.foldl act p

theorem run_append (p : VoicePool) (actions later : List Action) :
    p.run (actions ++ later) = (p.run actions).run later :=
  List.foldl_append

/-- What an action makes of a voice that it leaves in the pool under the handle `h`. -/
def Action.onVoice (h : VoiceHandle) (v : Voice) : Action → Voice
  | release i => if h = i then v.release else v
  | stepEnvelopes => v.stepEnvelope
  | render bank => v.advance bank
  | adjust i change => if h = i then change.apply v else v
  | adjustTrack track change => if v.track = track then change.apply v else v
  | _ => v

variable {p : VoicePool} {h h' : VoiceHandle} {v w : Voice} {a : Action}

/-! ## The slot of a new voice

Whatever the searches find is a slot of the pool, even if it has only one. -/

theorem oldest?_mem {handles : List VoiceHandle} (e : oldest? handles = some h) :
    h ∈ handles := by
  induction handles generalizing h with
  | nil => cases e
  | cons i rest ih =>
    rw [oldest?] at e
    cases ho : oldest? rest with
    | none =>
      rw [ho] at e
      cases e
      exact List.mem_cons_self
    | some o =>
      rw [ho] at e
      simp only [Option.some.injEq] at e
      split at e
      · exact e ▸ List.mem_cons_self
      · exact List.mem_cons_of_mem i (ih (e ▸ ho))

theorem slot_lt_of_get? (found : p.get? h = some v) : h.slot < p.capacity :=
  (Array.getElem?_eq_some_iff.mp (get?_eq_some_iff.mp found)).1

theorem victimSlot?_lt {slot : Nat} (e : p.victimSlot? = some slot) : slot < p.capacity := by
  have hlt : ∀ {test : Voice → Bool} {i}, oldest? (p.handles test) = some i →
      i.slot < p.capacity := by
    intro test i hi
    obtain ⟨v, hv, -⟩ := mem_handles.mp (oldest?_mem hi)
    exact slot_lt_of_get? hv
  obtain ⟨i, hi, rfl⟩ := Option.map_eq_some_iff.mp e
  rcases (Option.orElse_eq_some _ _ _).mp hi with hi | ⟨-, hi⟩
  · exact hlt hi
  · exact hlt hi

/-- A new voice always takes a slot of the pool. -/
theorem slotFor_lt (room : 0 < p.capacity) (channel : Option PsgChannel) :
    p.slotFor channel < p.capacity := by
  unfold slotFor
  cases e : (channel.bind p.channelSlot? <|> p.freeSlot? <|> p.victimSlot?) with
  | none => exact room
  | some slot =>
    rw [Option.getD_some]
    rcases (Option.orElse_eq_some _ _ _).mp e with e | ⟨-, e⟩
    · obtain ⟨c, -, e⟩ := Option.bind_eq_some_iff.mp e
      exact (Array.findIdx?_eq_some_iff_getElem.mp e).1
    · rcases (Option.orElse_eq_some _ _ _).mp e with e | ⟨-, e⟩
      · exact (Array.findIdx?_eq_some_iff_getElem.mp e).1
      · exact victimSlot?_lt e

/-- A voice that was put in is found. -/
theorem get?_allocate_self (room : 0 < p.capacity) (v : Voice) :
    (p.allocate v).2.get? (p.allocate v).1 = some v := by
  have hlt : p.slotFor v.psgChannel < p.slots.size := slotFor_lt room v.psgChannel
  rw [get?_eq_some_iff]
  simp [allocate, hlt]

/-! ## What a handle finds after an action

Each action either leaves what a handle finds, or changes it in the way that `onVoice` says, or puts
a new voice under a new handle. All that is known of a run of actions comes from this. -/

/-- A killed handle finds nothing, and every other handle what it found. -/
theorem get?_kill : (p.kill h).get? h' = if h' = h then none else p.get? h' := by
  unfold kill
  split
  · next x hx =>
    obtain ⟨hslot, hserial⟩ := held?_eq_some_iff.mp hx
    have hbound : h.slot < p.slots.size := (Array.getElem?_eq_some_iff.mp hslot).1
    ext w
    by_cases e : h' = h
    · rw [if_pos e, e, get?_eq_some_iff]
      simp [hbound]
    · rw [if_neg e, get?_eq_some_iff, get?_eq_some_iff]
      by_cases es : h.slot = h'.slot
      · -- the slot was taken under another serial number
        have hne : x.serial ≠ h'.serial := by
          intro e'
          apply e
          cases h
          cases h'
          simp_all
        rw [← es, hslot]
        simp only [Array.getElem?_setIfInBounds, hbound, if_true, Option.some.injEq, reduceCtorEq,
          false_iff]
        intro e'
        exact hne (e' ▸ rfl)
      · simp [es]
  · next hx =>
    -- the handle is stale already
    have gone : p.get? h = none := by simp [get?, hx]
    split
    · next e => rw [e, gone]
    · rfl

/-- What a handle finds after an action, unless that put a voice in. -/
theorem get?_act_of_ne (ha : ∀ v, a ≠ .allocate v) (found : (p.act a).get? h = some w) :
    ∃ v, p.get? h = some v ∧ w = a.onVoice h v := by
  have hmap : ∀ f : Voice → Voice, (p.mapVoices f).get? h = some w →
      ∃ v, p.get? h = some v ∧ w = f v := by
    intro f hf
    rw [get?_mapVoices] at hf
    obtain ⟨v, hv, rfl⟩ := Option.map_eq_some_iff.mp hf
    exact ⟨v, hv, rfl⟩
  have hmodify : ∀ (i : VoiceHandle) (f : Voice → Voice), (p.modify i f).get? h = some w →
      ∃ v, p.get? h = some v ∧ w = if h = i then f v else v := by
    intro i f hf
    rw [get?_modify] at hf
    split at hf
    · next e =>
      obtain ⟨v, hv, rfl⟩ := Option.map_eq_some_iff.mp hf
      exact ⟨v, hv, (if_pos e).symm⟩
    · next e => exact ⟨w, hf, (if_neg e).symm⟩
  -- all that can be found after the action was there before, as the action has changed it
  cases a with
  | allocate v => exact absurd rfl (ha v)
  | release i => exact hmodify i Voice.release found
  | kill i =>
    rw [act, get?_kill] at found
    split at found
    · cases found
    · exact ⟨w, found, rfl⟩
  | killAll => simp [act] at found
  | stepEnvelopes => exact hmap _ found
  | reapFinished => exact ⟨w, (get?_reapFinished.mp found).1, rfl⟩
  | render bank => exact hmap _ found
  | adjust i change => exact hmodify i change.apply found
  | adjustTrack track change => exact hmap _ found

/-- What a handle finds after an action is what it found before, as the action changes it, or the
voice that was just put in. -/
theorem get?_act (found : (p.act a).get? h = some w) :
    (∃ v, p.get? h = some v ∧ w = a.onVoice h v) ∨
      (a = .allocate w ∧ h = (p.allocate w).1) := by
  by_cases ha : ∃ v, a = .allocate v
  · obtain ⟨v, rfl⟩ := ha
    rcases get?_allocate found with ⟨e, rfl⟩ | ⟨-, old⟩
    · exact Or.inr ⟨rfl, e⟩
    · exact Or.inl ⟨w, old, rfl⟩
  · exact Or.inl (get?_act_of_ne (fun v e => ha ⟨v, e⟩) found)

theorem nextSerial_act_of_ne (ha : ∀ v, a ≠ .allocate v) :
    (p.act a).nextSerial = p.nextSerial := by
  have hmodify : ∀ (i : VoiceHandle) (f : Voice → Voice),
      (p.modify i f).nextSerial = p.nextSerial := by
    intro i f
    unfold modify
    split <;> rfl
  cases a with
  | allocate v => exact absurd rfl (ha v)
  | release i => exact hmodify i Voice.release
  | kill i =>
    simp only [act, kill]
    split <;> rfl
  | adjust i change => exact hmodify i change.apply
  | _ => rfl

theorem nextSerial_le_act (a : Action) : p.nextSerial ≤ (p.act a).nextSerial := by
  by_cases ha : ∃ v, a = .allocate v
  · obtain ⟨v, rfl⟩ := ha
    exact Nat.le_succ p.nextSerial
  · exact Nat.le_of_eq (nextSerial_act_of_ne fun v e => ha ⟨v, e⟩).symm

/-- The count of serial numbers never goes back, whatever is done to a pool. -/
theorem nextSerial_le_run (p : VoicePool) (actions : List Action) :
    p.nextSerial ≤ (p.run actions).nextSerial := by
  induction actions generalizing p with
  | nil => exact Nat.le_refl _
  | cons a actions ih => exact Nat.le_trans (nextSerial_le_act a) (ih (p.act a))

theorem capacity_act (a : Action) : (p.act a).capacity = p.capacity := by
  -- a slot is written to, but none is added or taken away
  have hmodify : ∀ (i : VoiceHandle) (f : Voice → Voice),
      (p.modify i f).capacity = p.capacity := by
    intro i f
    unfold modify
    split
    · simp [capacity]
    · rfl
  cases a with
  | allocate v => exact capacity_allocate
  | release i => exact hmodify i Voice.release
  | kill i =>
    simp only [act, kill]
    split
    · simp [capacity]
    · rfl
  | killAll => exact capacity_killAll
  | reapFinished => exact capacity_reapFinished
  | adjust i change => exact hmodify i change.apply
  | _ => exact capacity_mapVoices p _

/-- A pool keeps its size. -/
theorem capacity_run (p : VoicePool) (actions : List Action) :
    (p.run actions).capacity = p.capacity := by
  induction actions generalizing p with
  | nil => rfl
  | cons a actions ih => exact (ih (p.act a)).trans (capacity_act a)

/-- What holds of the voices of a pool and of those that are put in, and is kept by every action,
holds of all that are found later. -/
theorem invariant_run {P : Voice → Prop} {actions : List Action}
    (kept : ∀ (a : Action) (h : VoiceHandle) (v : Voice), P v → P (a.onVoice h v))
    (sound : ∀ {h v}, p.get? h = some v → P v) (soundToo : ∀ v, .allocate v ∈ actions → P v)
    (found : (p.run actions).get? h = some v) : P v := by
  induction actions generalizing p with
  | nil => exact sound found
  | cons a actions ih =>
    refine ih ?_ (fun v mem => soundToo v (List.mem_cons_of_mem a mem)) found
    intro i w hw
    rcases get?_act hw with ⟨u, old, rfl⟩ | ⟨rfl, -⟩
    · exact kept a i u (sound old)
    · exact soundToo w List.mem_cons_self

/-- What a release, a step of the envelope, a frame and every adjustment keep of a voice is kept by
every action. -/
theorem onVoice_of_kept {P : Voice → Prop} (release : P v → P v.release)
    (stepEnvelope : P v → P v.stepEnvelope) (advance : ∀ bank, P v → P (v.advance bank))
    (adjust : ∀ change : Adjustment, P v → P (change.apply v)) (a : Action) (h : VoiceHandle)
    (holds : P v) : P (a.onVoice h v) := by
  cases a with
  | release i =>
    simp only [Action.onVoice]
    split
    · exact release holds
    · exact holds
  | stepEnvelopes => exact stepEnvelope holds
  | render bank => exact advance bank holds
  | adjust i change =>
    simp only [Action.onVoice]
    split
    · exact adjust change holds
    · exact holds
  | adjustTrack track change =>
    simp only [Action.onVoice]
    split
    · exact adjust change holds
    · exact holds
  | _ => exact holds

/-- No action moves a voice to another tone channel, for nothing that happens to a voice changes its
source. -/
theorem psgChannel_onVoice (a : Action) (h : VoiceHandle) (v : Voice) :
    (a.onVoice h v).psgChannel = v.psgChannel := by
  refine onVoice_of_kept (P := fun w => w.psgChannel = v.psgChannel) id id ?_ ?_ a h rfl
  · intro bank same
    rw [Voice.advance]
    split <;> exact same
  · intro change same
    cases change <;> exact same

/-! ## Pools that are well kept

The invariant that makes handles unique: no serial number twice, and no tone channel twice. It holds
of an empty pool and is kept by every action. -/

/-- Each serial number and each tone channel stands in one slot at most, and the next serial number
is a new one. -/
structure WellKept (p : VoicePool) : Prop where
  /-- The next voice gets a serial number that no voice has. -/
  serial_lt : ∀ {h v}, p.get? h = some v → h.serial < p.nextSerial
  eq_of_serial : ∀ {h i v w}, p.get? h = some v → p.get? i = some w → h.serial = i.serial → h = i
  eq_of_channel : ∀ {h i v w channel}, p.get? h = some v → p.get? i = some w →
    v.psgChannel = some channel → w.psgChannel = some channel → h = i

theorem wellKept_empty (capacity : Nat) : (empty capacity).WellKept := by
  constructor <;> simp

/-- A voice on a tone channel takes the slot of the one that sounds there. -/
theorem WellKept.slotFor_eq {channel : PsgChannel} (k : p.WellKept) (found : p.get? h = some v)
    (hchannel : v.psgChannel = some channel) : p.slotFor (some channel) = h.slot := by
  have hslot := get?_eq_some_iff.mp found
  obtain ⟨i, hi⟩ : ∃ i, p.channelSlot? channel = some i := by
    refine Option.isSome_iff_exists.mp ?_
    rw [channelSlot?, Array.findIdx?_isSome, Array.any_eq_true']
    exact ⟨_, Array.mem_of_getElem? hslot, by simpa using hchannel⟩
  obtain ⟨hlt, hfound, -⟩ := Array.findIdx?_eq_some_iff_getElem.mp hi
  have same : i = h.slot := by
    split at hfound
    · next x hx =>
      have hx : p.get? ⟨i, x.serial⟩ = some x.voice :=
        get?_eq_some_iff.mpr (Array.getElem?_eq_some_iff.mpr ⟨hlt, hx⟩)
      have e := k.eq_of_channel hx found (of_decide_eq_true hfound) hchannel
      exact congrArg VoiceHandle.slot e
    · cases hfound
  simp [slotFor, hi, same]

/-- A new voice takes the slot of the voice on its channel, so that no channel is held twice. -/
theorem WellKept.allocate (k : p.WellKept) (v : Voice) : (p.allocate v).2.WellKept := by
  -- what was there and is left has an older serial number, and another channel than the new voice
  have fresh : ∀ {h w}, p.get? h = some w → h.serial ≠ (p.allocate v).1.serial := by
    intro h w found
    exact Nat.ne_of_lt (k.serial_lt found)
  have apart : ∀ {h w channel}, p.get? h = some w → h.slot ≠ (p.allocate v).1.slot →
      w.psgChannel = some channel → v.psgChannel ≠ some channel := by
    intro h w channel found away hw hv
    apply away
    rw [← k.slotFor_eq found hw, ← hv]
    rfl
  constructor
  · intro h w found
    rcases get?_allocate found with ⟨rfl, -⟩ | ⟨-, old⟩
    · exact Nat.lt_succ_self p.nextSerial
    · exact Nat.lt_succ_of_lt (k.serial_lt old)
  · intro h i w u hw hu e
    rcases get?_allocate hw with ⟨rfl, rfl⟩ | ⟨-, hw⟩
    · rcases get?_allocate hu with ⟨rfl, -⟩ | ⟨-, hu⟩
      · rfl
      · exact absurd e.symm (fresh hu)
    · rcases get?_allocate hu with ⟨rfl, -⟩ | ⟨-, hu⟩
      · exact absurd e (fresh hw)
      · exact k.eq_of_serial hw hu e
  · intro h i w u channel hw hu cw cu
    rcases get?_allocate hw with ⟨rfl, rfl⟩ | ⟨away, old⟩
    · rcases get?_allocate hu with ⟨rfl, -⟩ | ⟨away, old⟩
      · rfl
      · exact absurd cw (apart old away cu)
    · rcases get?_allocate hu with ⟨rfl, rfl⟩ | ⟨-, old'⟩
      · exact absurd cu (apart old away cw)
      · exact k.eq_of_channel old old' cw cu

/-- Every action leaves a pool well kept. -/
theorem WellKept.act (k : p.WellKept) (a : Action) : (p.act a).WellKept := by
  by_cases ha : ∃ v, a = .allocate v
  · obtain ⟨v, rfl⟩ := ha
    exact k.allocate v
  · have ha : ∀ v, a ≠ .allocate v := fun v e => ha ⟨v, e⟩
    constructor
    · intro h w found
      obtain ⟨v, hv, -⟩ := get?_act_of_ne ha found
      rw [nextSerial_act_of_ne ha]
      exact k.serial_lt hv
    · intro h i w u hw hu e
      obtain ⟨v, hv, -⟩ := get?_act_of_ne ha hw
      obtain ⟨x, hx, -⟩ := get?_act_of_ne ha hu
      exact k.eq_of_serial hv hx e
    · intro h i w u channel hw hu cw cu
      obtain ⟨v, hv, rfl⟩ := get?_act_of_ne ha hw
      obtain ⟨x, hx, rfl⟩ := get?_act_of_ne ha hu
      rw [psgChannel_onVoice] at cw cu
      exact k.eq_of_channel hv hx cw cu

/-- Nothing that can be done to a pool breaks the rules it is kept by. -/
theorem WellKept.run (k : p.WellKept) (actions : List Action) : (p.run actions).WellKept := by
  induction actions generalizing p with
  | nil => exact k
  | cons a actions ih => exact ih (k.act a)

/-! ## Handles that were given out

A serial number below the next one has been given out. A handle with such a number never finds a
voice that came later, and once it finds nothing it never will again. -/

/-- A handle that was given out and finds a voice found it before. -/
theorem get?_of_act (given : h.serial < p.nextSerial) (found : (p.act a).get? h = some w) :
    ∃ v, p.get? h = some v ∧ w = a.onVoice h v := by
  rcases get?_act found with old | ⟨-, rfl⟩
  · exact old
  · exact absurd given (Nat.lt_irrefl p.nextSerial)

/-- A handle that was given out finds, after some actions, what they make of the voice that it
found, or nothing. -/
theorem get?_of_run {actions : List Action} (given : h.serial < p.nextSerial)
    (found : (p.run actions).get? h = some w) :
    ∃ v, p.get? h = some v ∧ w = actions.foldl (Action.onVoice h) v := by
  induction actions generalizing p with
  | nil => exact ⟨w, found, rfl⟩
  | cons a actions ih =>
    obtain ⟨u, hu, rfl⟩ := ih (Nat.lt_of_lt_of_le given (nextSerial_le_act a)) found
    obtain ⟨v, hv, rfl⟩ := get?_of_act given hu
    exact ⟨v, hv, rfl⟩

/-- Handles are safe. Whatever is done with a pool, its slots never become more and no more voices
sound than there are slots; no serial number and no tone channel stands in two slots. A handle that
an allocation gave out finds the voice that was put in, as it has been changed since, or nothing;
once it finds nothing, it never finds anything again, and to release or to kill it does nothing. -/
theorem handles_stay_safe (capacity : Nat) (actions : List Action) :
    let p := (empty capacity).run actions
    (p.capacity = max 1 (min capacity greatestCapacity) ∧ p.activeCount ≤ p.capacity) ∧
    (∀ (i : Nat) (x : HeldVoice), p.slots[i]? = some (some x) → x.serial < p.nextSerial) ∧
    (∀ (i j : Nat) (x y : HeldVoice),
      p.slots[i]? = some (some x) → p.slots[j]? = some (some y) →
      (x.serial = y.serial → i = j) ∧
      ∀ channel, x.voice.psgChannel = some channel → y.voice.psgChannel = some channel → i = j) ∧
    (∀ (before after : List Action) (v : Voice), actions = before ++ .allocate v :: after →
      let h := (((empty capacity).run before).allocate v).1
      ((empty capacity).run (before ++ [.allocate v])).get? h = some v ∧
      (p.get? h = none ∨ p.get? h = some (after.foldl (Action.onVoice h) v)) ∧
      (p.get? h = none → ∀ later, (p.run later).get? h = none)) ∧
    (∀ h, p.get? h = none → p.release h = p ∧ p.kill h = p) := by
  intro p
  -- the first three parts are what well-kept pools have in common
  have kept : p.WellKept := (wellKept_empty capacity).run actions
  have hcapacity : ∀ actions, ((empty capacity).run actions).capacity =
      max 1 (min capacity greatestCapacity) := by
    intro actions
    rw [capacity_run]
    simp [VoicePool.capacity, empty]
  refine ⟨⟨hcapacity actions, Array.countP_le_size⟩, ?_, ?_, ?_, ?_⟩
  · intro i x hx
    have hx : p.get? ⟨i, x.serial⟩ = some x.voice := get?_eq_some_iff.mpr hx
    exact kept.serial_lt hx
  · intro i j x y hx hy
    have hx : p.get? ⟨i, x.serial⟩ = some x.voice := get?_eq_some_iff.mpr hx
    have hy : p.get? ⟨j, y.serial⟩ = some y.voice := get?_eq_some_iff.mpr hy
    refine ⟨?_, ?_⟩
    · intro e
      exact congrArg VoiceHandle.slot (kept.eq_of_serial hx hy e)
    · intro channel cx cy
      exact congrArg VoiceHandle.slot (kept.eq_of_channel hx hy cx cy)
  · intro before after v e h
    let q := (empty capacity).run (before ++ [.allocate v])
    have hq : q = (((empty capacity).run before).allocate v).2 := run_append _ before [_]
    have hp : p = q.run after := by
      rw [← run_append, List.append_assoc, List.singleton_append, ← e]
    have hfound : q.get? h = some v := by
      rw [hq]
      refine get?_allocate_self ?_ v
      rw [hcapacity before]
      omega
    -- the number has been given away, so no later voice gets it again
    have given : h.serial < q.nextSerial := by
      rw [hq]
      exact Nat.lt_succ_self _
    refine ⟨hfound, ?_, ?_⟩
    · cases hw : p.get? h with
      | none => exact Or.inl rfl
      | some w =>
        rw [hp] at hw
        obtain ⟨u, hu, rfl⟩ := get?_of_run given hw
        rw [hfound] at hu
        cases hu
        exact Or.inr rfl
    · intro gone later
      have given : h.serial < p.nextSerial := by
        rw [hp]
        exact Nat.lt_of_lt_of_le given (nextSerial_le_run q after)
      refine Option.eq_none_iff_forall_ne_some.mpr fun w hw => ?_
      obtain ⟨u, hu, -⟩ := get?_of_run given hw
      rw [gone] at hu
      cases hu
  · intro h gone
    exact ⟨release_of_get?_eq_none gone, kill_of_get?_eq_none gone⟩

/-- In a pool of one slot the second voice steals the slot of the first one. The first handle is of
no use any more, and the second voice takes no harm from it. -/
theorem handles_stay_safe_stolen :
    let old : Voice := { (default : Voice) with key := 60 }
    let new : Voice := { (default : Voice) with key := 62 }
    let p := (empty 1).run [.allocate old, .allocate new, .release ⟨0, 0⟩, .kill ⟨0, 0⟩]
    p.get? ⟨0, 0⟩ = none ∧ (∀ later, (p.run later).get? ⟨0, 0⟩ = none) ∧
      p.get? ⟨0, 1⟩ = some new := by
  intro old new p
  obtain ⟨-, -, -, given, -⟩ := handles_stay_safe 1
    [.allocate old, .allocate new, .release ⟨0, 0⟩, .kill ⟨0, 0⟩]
  have first : (((empty 1).run []).allocate old).1 = ⟨0, 0⟩ := by decide +kernel
  have gone : p.get? ⟨0, 0⟩ = none := by decide +kernel
  have lost := (given [] _ old rfl).2.2
  rw [first] at lost
  refine ⟨gone, lost gone, ?_⟩
  decide +kernel

end VoicePool
end Chiptune
