import Chiptune.Proofs.Envelope.Moves
import Chiptune.Proofs.VoicePool.Safety
import Mathlib.Algebra.Order.Floor.Div

/-!
# The way through a recording

A voice moves through its recording by one increment for each frame, and each time that takes it
past the end of a loop it goes back into the loop. So the position is kept small, and what would be
the whole way is never known. Still the position is what one gets by going the whole way first and
coming back once (`PcmCursor.wrap_wrap_add`): nothing is lost at the end of a loop, however many
there were and whatever the increments have been. A recording without a loop is played to its end
and no further (`Voice.traverses_recording`).
-/

namespace Chiptune

/-! ## Going back into a loop

A position behind the end stands for a place in the loop, and a round more or less makes no
difference. That is why the position can be brought back after each frame or only at the end. -/

namespace PcmCursor

variable {s : Sample} {position : Nat}

/-- Inside the recording a position is what it is. -/
theorem wrap_of_lt (inside : position / 65536 < s.size) : wrap s position = position := by
  apply if_neg
  intro past
  omega

theorem wrap_of_not_hasLoop (once : ¬ s.HasLoop) (position : Nat) : wrap s position = position := by
  apply if_neg
  intro past
  exact once past.1

/-- From the start of the loop on, it is a place in the loop. -/
theorem wrap_of_loopStart_le (loops : s.HasLoop) (inLoop : s.loopStart ≤ position / 65536) :
    wrap s position =
      65536 * (s.loopStart + (position / 65536 - s.loopStart) % (s.size - s.loopStart)) +
        position % 65536 := by
  rcases Nat.lt_or_ge (position / 65536) s.size with inside | past
  · rw [wrap_of_lt inside, Nat.mod_eq_of_lt (by omega)]
    omega
  · exact if_pos ⟨loops, past⟩

/-- There whole rounds make no difference. -/
theorem wrap_add_rounds (loops : s.HasLoop) (inLoop : s.loopStart ≤ position / 65536)
    (rounds : Nat) :
    wrap s (position + 65536 * ((s.size - s.loopStart) * rounds)) = wrap s position := by
  have place : (position + 65536 * ((s.size - s.loopStart) * rounds)) / 65536 - s.loopStart =
      (position / 65536 - s.loopStart) + (s.size - s.loopStart) * rounds := by
    rw [Nat.add_mul_div_left _ _ (by decide)]
    omega
  rw [wrap_of_loopStart_le loops (by omega), wrap_of_loopStart_le loops inLoop, place,
    Nat.add_mul_mod_self_left, Nat.add_mul_mod_self_left]

/-- Past the end, a position is some whole rounds further than the place that it stands for. -/
theorem exists_rounds (loops : s.HasLoop) (past : s.size ≤ position / 65536) :
    ∃ rounds, wrap s position + 65536 * ((s.size - s.loopStart) * rounds) = position ∧
      s.loopStart ≤ wrap s position / 65536 := by
  have inLoop : s.loopStart ≤ position / 65536 := Nat.le_trans (Nat.le_of_lt loops.2) past
  have whole := Nat.mod_add_div (position / 65536 - s.loopStart) (s.size - s.loopStart)
  refine ⟨(position / 65536 - s.loopStart) / (s.size - s.loopStart), ?_⟩
  rw [wrap_of_loopStart_le loops inLoop]
  generalize (position / 65536 - s.loopStart) % (s.size - s.loopStart) = rest at whole ⊢
  generalize (s.size - s.loopStart) * _ = back at whole ⊢
  omega

/-- To come back at once, and then again, is to come back in the end. -/
theorem wrap_wrap_add (s : Sample) (position increment : Nat) :
    wrap s (wrap s position + increment) = wrap s (position + increment) := by
  by_cases loops : s.HasLoop
  · rcases Nat.lt_or_ge (position / 65536) s.size with inside | past
    · rw [wrap_of_lt inside]
    · obtain ⟨rounds, whole, inLoop⟩ := exists_rounds loops past
      have further : s.loopStart ≤ (wrap s position + increment) / 65536 := by omega
      rw [← wrap_add_rounds loops further rounds]
      congr 1
      omega
  · simp only [wrap_of_not_hasLoop loops]

/-- With a loop, no position stands for a place behind the recording. -/
theorem wrap_lt (loops : s.HasLoop) (position : Nat) : wrap s position / 65536 < s.size := by
  rcases Nat.lt_or_ge (position / 65536) s.size with inside | past
  · rwa [wrap_of_lt inside]
  · have start := loops.2
    have short := Nat.mod_lt (position / 65536 - s.loopStart) (Nat.sub_pos_of_lt start)
    rw [wrap_of_loopStart_le loops (by omega)]
    omega

end PcmCursor

/-! ## What happens to a voice

A frame, a step of its envelope, a release, or another pitch, mix or mute. Of these only a frame
moves the voice on, by the increment that it has just then. -/

namespace Voice

/-- What happens to a voice while it sounds. -/
inductive Event
  /-- One frame is sounded. -/
  | frame
  | adjust (change : Adjustment)
  | envelope (event : Envelope.Event)

def Event.isFrame : Event → Bool
  | frame => true
  | _ => false

def react (bank : Bank) (v : Voice) : Event → Voice
  | .frame => v.advance bank
  | .adjust change => change.apply v
  | .envelope event => { v with envelope := v.envelope.react event }

/-- The voice after some events, one after the other. -/
def run (bank : Bank) (v : Voice) (events : List Event) : Voice := events.foldl (react bank) v

/-- The increment that the voice uses up in an event, if any. -/
def taken (v : Voice) (event : Event) : List Nat :=
  if event.isFrame && v.playing then [v.generator.increment] else []

/-- The increments that the voice uses up in some events: one for each frame as long as it plays. -/
def increments (bank : Bank) (v : Voice) : List Event → List Nat
  | [] => []
  | event :: events => v.taken event ++ increments bank (v.react bank event) events

variable {bank : Bank} {s : Sample} {v : Voice} {way : Nat}

/-! ## The way of a voice

The sum of the increments that were used up, wrapped into the recording, is the position of the
voice. Each event keeps this up. -/

/-- The voice plays `s` and has come all this way. -/
structure OnWay (bank : Bank) (s : Sample) (v : Voice) (way : Nat) : Prop where
  /-- The position is the way that was come, taken back into the loop. -/
  cursor : ∃ c, v.generator = .pcm c ∧ bank.sample? c.sample = some s ∧
    c.position = PcmCursor.wrap s way
  /-- Without a loop the voice plays until its way is as long as the recording. -/
  playing_iff : v.playing = true ↔ s.HasLoop ∨ way / 65536 < s.size

namespace OnWay

theorem start {instrument : Instrument} {sample : Nat} (source : instrument.source = .pcm sample)
    (found : bank.sample? sample = some s) (nonempty : 0 < s.size)
    (rate track key soundingKey velocity : Nat) (envelope : Envelope) :
    OnWay bank s (Voice.start instrument rate track key soundingKey velocity envelope) 0 where
  cursor := by
    refine ⟨{ sample, rate, rootKey := instrument.rootKey }, ?_, found, ?_⟩
    · simp [Voice.start, Generator.ofInstrument, source]
    · have inside : 0 / 65536 < s.size := by rwa [Nat.zero_div]
      exact (PcmCursor.wrap_of_lt inside).symm
  playing_iff := by simp [Voice.start, nonempty]

/-- A frame takes a voice that plays one increment further. -/
theorem advance (h : OnWay bank s v way) (playing : v.playing = true) :
    OnWay bank s (v.advance bank) (way + v.generator.increment) := by
  obtain ⟨c, pcm, found, position⟩ := h.cursor
  have moved : (v.advance bank).generator = .pcm (c.advance s) := by
    simp [Voice.advance, playing, pcm, Generator.advance, found]
  have further : (c.advance s).position = PcmCursor.wrap s (way + c.increment) := by
    rw [← PcmCursor.wrap_wrap_add, ← position]
    rfl
  have increment : v.generator.increment = c.increment := by rw [pcm]; rfl
  rw [increment]
  refine ⟨⟨_, moved, found, further⟩, ?_⟩
  have going : (v.advance bank).playing = true ↔ (c.advance s).position / 65536 < s.size := by
    simp [Voice.advance, playing, pcm, Generator.advance, found, Generator.IsSpent,
      PcmCursor.IsPastEnd, PcmCursor.place, show (c.advance s).sample = c.sample from rfl]
  rw [going, further]
  by_cases loops : s.HasLoop
  · simp [loops, PcmCursor.wrap_lt]
  · simp [loops, PcmCursor.wrap_of_not_hasLoop]

/-- Where the generator keeps its place, the voice is no further than before. -/
theorem congr {w : Voice} (h : OnWay bank s v way) (playing : w.playing = v.playing)
    (same : ∀ c, v.generator = .pcm c →
      ∃ increment, w.generator = .pcm { c with increment := increment }) :
    OnWay bank s w way := by
  obtain ⟨c, pcm, found, position⟩ := h.cursor
  obtain ⟨increment, pcm'⟩ := same c pcm
  exact ⟨⟨_, pcm', found, position⟩, by rw [playing, h.playing_iff]⟩

theorem react (h : OnWay bank s v way) (event : Event) :
    OnWay bank s (v.react bank event) (way + (v.taken event).sum) := by
  cases event with
  | frame =>
    by_cases playing : v.playing = true
    · simpa [taken, Event.isFrame, playing, Voice.react] using h.advance playing
    · simpa [taken, Event.isFrame, playing, Voice.react, Voice.advance] using h
  | adjust change =>
    apply h.congr
    · cases change <;> rfl
    · intro c pcm
      cases change with
      | pitch bend range sampleRate =>
        let pitch := Pitch.relative v.soundingKey c.rootKey 0 bend range
        refine ⟨Pitch.sampleIncrement c.rate pitch sampleRate, ?_⟩
        simp [Voice.react, Adjustment.apply, retune, Generator.retune, pcm, pitch]
      | mix => exact ⟨c.increment, pcm⟩
      | mute => exact ⟨c.increment, pcm⟩
  | envelope event => exact h.congr rfl fun c pcm => ⟨c.increment, pcm⟩

theorem run (h : OnWay bank s v way) (events : List Event) :
    OnWay bank s (v.run bank events) (way + (v.increments bank events).sum) := by
  induction events generalizing v way with
  | nil => exact h
  | cons event events ih =>
    rw [increments, List.sum_append, ← Nat.add_assoc]
    exact ih (h.react event)

/-- While it plays, a voice reads inside its recording. -/
theorem level?_eq (h : OnWay bank s v way) (playing : v.playing = true) :
    v.generator.position / 65536 < s.size ∧
      v.generator.level? bank = some (s.level (v.generator.position / 65536)) := by
  obtain ⟨c, pcm, found, position⟩ := h.cursor
  refine ⟨?_, by simp [pcm, Generator.level?, found, Generator.position, PcmCursor.place]⟩
  rw [pcm]
  show c.position / 65536 < s.size
  rw [position]
  rcases h.playing_iff.mp playing with loops | inside
  · exact PcmCursor.wrap_lt loops way
  · rwa [PcmCursor.wrap_of_lt inside]

theorem position_eq (h : OnWay bank s v way) : v.generator.position = PcmCursor.wrap s way := by
  obtain ⟨c, pcm, -, position⟩ := h.cursor
  rw [pcm]
  exact position

end OnWay

/-! ## One increment for all frames

Where the pitch stays, the sum is a product, and a recording without a loop ends after as many
frames as it holds increments. -/

theorem ceilDiv_eq_add_one {a b : Nat} (ha : 0 < a) (hb : 0 < b) :
    a ⌈/⌉ b = (a - b) ⌈/⌉ b + 1 := by
  rw [Nat.ceilDiv_eq_add_pred_div, Nat.ceilDiv_eq_add_pred_div, ← Nat.add_div_right _ hb]
  rcases Nat.le_total b a with le | le
  · congr 1
    omega
  · -- what is left is less than one part
    have one : (a + b - 1) / b = 1 := Nat.div_eq_of_lt_le (by omega) (by omega)
    have one' : (a - b + b - 1 + b) / b = 1 := Nat.div_eq_of_lt_le (by omega) (by omega)
    rw [one, one']

/-- A recording without a loop is over after as many frames as it has increments in it, a part of
one at its end included. -/
theorem length_increments {i : Nat} (pos : 0 < i) (once : ¬ s.HasLoop) {events : List Event}
    (h : OnWay bank s v way) (constant : ∀ j ∈ v.increments bank events, j = i) :
    (v.increments bank events).length =
      min (events.countP Event.isFrame) ((65536 * s.size - way) ⌈/⌉ i) := by
  -- on the events; each frame that is played leaves one increment less of the recording
  induction events generalizing v way with
  | nil => simp [increments]
  | cons event events ih =>
    rw [increments] at constant ⊢
    have next := ih (h.react event) fun j mem => constant j (List.mem_append_right _ mem)
    rw [List.length_append, next]
    by_cases frame : event.isFrame = true
    · by_cases playing : v.playing = true
      · have taken_eq : v.taken event = [i] := by
          have all : v.taken event = [v.generator.increment] := by simp [taken, frame, playing]
          rw [all] at constant ⊢
          rw [constant v.generator.increment (by simp)]
        have inside : way / 65536 < s.size := by simpa [once] using h.playing_iff.mp playing
        have left : 0 < 65536 * s.size - way := by omega
        rw [taken_eq, ceilDiv_eq_add_one left pos, List.countP_cons_of_pos frame]
        simp only [List.length_singleton, List.sum_singleton, Nat.sub_sub]
        omega
      · have spent : 65536 * s.size - way = 0 := by
          have past : ¬ way / 65536 < s.size := fun inside =>
            playing (h.playing_iff.mpr (.inr inside))
          omega
        simp [taken, playing, spent]
    · simp [taken, frame]

/-- What a voice has come through is the sum of the increments that it has used up. With a loop it
plays on for ever; its position is that sum as long as it lies inside the recording, and then the
place in the loop where it belongs, with its fraction. Without a loop its position is that sum, and
it plays exactly as long as it lies inside the recording. Either way it reads at its position, and
inside the recording. So if it uses one increment all the time, then it plays as many frames as
there are increments in the recording, the last of them perhaps not a whole one. -/
theorem traverses_recording {instrument : Instrument} {sample : Nat}
    (source : instrument.source = .pcm sample) (found : bank.sample? sample = some s)
    (nonempty : 0 < s.size) (rate track key soundingKey velocity : Nat) (envelope : Envelope)
    (events : List Event) :
    let fresh := Voice.start instrument rate track key soundingKey velocity envelope
    let used := fresh.increments bank events
    let v := fresh.run bank events
    let way := used.sum
    (s.HasLoop →
      v.playing = true ∧
      v.generator.position =
        (if way / 65536 < s.size then way
        else 65536 * (s.loopStart + (way / 65536 - s.loopStart) % (s.size - s.loopStart)) +
          way % 65536) ∧
      v.generator.position / 65536 < s.size ∧
      v.generator.level? bank = some (s.level (v.generator.position / 65536))) ∧
    (¬ s.HasLoop →
      v.generator.position = way ∧
      (v.playing = true ↔ way / 65536 < s.size) ∧
      (v.playing = true → v.generator.level? bank = some (s.level (way / 65536))) ∧
      ∀ i, 0 < i → (∀ j ∈ used, j = i) →
        used.length = min (events.countP Event.isFrame) ((65536 * s.size) ⌈/⌉ i)) := by
  intro fresh used v way
  have started : OnWay bank s fresh 0 :=
    .start source found nonempty rate track key soundingKey velocity envelope
  -- all that is said of the voice is said of its way through the recording
  have h : OnWay bank s v way := by simpa [way, used, v] using started.run events
  refine ⟨?_, ?_⟩
  · intro loops
    have playing : v.playing = true := h.playing_iff.mpr (.inl loops)
    refine ⟨playing, ?_, h.level?_eq playing⟩
    rw [h.position_eq]
    split
    · next inside => exact PcmCursor.wrap_of_lt inside
    -- from the end on, the way goes around between the loop point and the end
    · next past =>
      have past := Nat.not_lt.mp past
      exact PcmCursor.wrap_of_loopStart_le loops (Nat.le_trans (Nat.le_of_lt loops.2) past)
  · intro once
    have position : v.generator.position = way := by
      rw [h.position_eq, PcmCursor.wrap_of_not_hasLoop once]
    refine ⟨position, ?_, ?_, ?_⟩
    · rw [h.playing_iff]
      simp [once]
    · intro playing
      rw [(h.level?_eq playing).2, position]
    · intro i pos constant
      exact length_increments pos once started constant

/-- Two recordings of four levels, one with a loop, are played one and a half levels to a frame. The
looped one is bent upwards in the end. -/
theorem traverses_recording_fourLevels :
    let levels := SampleData.pcm8 ⟨#[10, 20, 30, 40]⟩
    let looped := (Sample.ofData "looped" levels 12000).withLoop 1
    let once := Sample.ofData "once" levels 12000
    let bank : Bank := { samples := #[looped, once] }
    let start (sample : Nat) :=
      Voice.start (.named "recording" (.pcm sample)) 12000 0 60 60 100 default
    let tuned (frames : Nat) := .adjust (.pitch 0 2 8000) :: List.replicate frames Event.frame
    let bent := tuned 3 ++ [.adjust (.pitch 8191 12 8000), .frame]
    (((start 0).increments bank bent).sum = 491476 ∧
      ((start 0).run bank bent).playing = true ∧
      ((start 0).run bank bent).generator.position = 98260 ∧
      ((start 0).run bank bent).generator.level? bank = some (looped.level 1)) ∧
    ((start 1).run bank (tuned 2)).playing = true ∧
      ((start 1).increments bank (tuned 9)).length = 3 := by
  intro levels looped once bank start tuned bent
  have loops : looped.HasLoop := by decide +kernel
  have ends : ¬ once.HasLoop := by decide +kernel
  -- a second bend takes the voice beyond the end of the loop
  have way : ((start 0).increments bank bent).sum = 491476 := by decide +kernel
  have short : ((start 1).increments bank (tuned 2)).sum / 65536 < once.size := by decide +kernel
  have constant : ∀ j ∈ (start 1).increments bank (tuned 9), j = 98304 := by decide +kernel
  have source (sample : Nat) :
    (Instrument.named "recording" (.pcm sample)).source = .pcm sample := rfl
  have first : bank.sample? 0 = some looped := rfl
  have second : bank.sample? 1 = some once := rfl
  have traversesLooped :=
    traverses_recording (source 0) first (by decide) 12000 0 60 60 100 default bent
  have traversesOnce (frames : Nat) :=
    traverses_recording (source 1) second (by decide) 12000 0 60 60 100 default (tuned frames)
  obtain ⟨playing, position, -, level⟩ := traversesLooped.1 loops
  obtain ⟨-, plays, -, -⟩ := (traversesOnce 2).2 ends
  obtain ⟨-, -, -, frames⟩ := (traversesOnce 9).2 ends
  have position : ((start 0).run bank bent).generator.position = 98260 := by
    rw [way] at position
    exact position.trans (by decide +kernel)
  rw [position] at level
  refine ⟨⟨way, playing, position, level⟩, plays.mpr short, ?_⟩
  exact (frames 98304 (by decide) constant).trans (by decide +kernel)

end Voice
end Chiptune
