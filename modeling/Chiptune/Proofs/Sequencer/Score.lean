import Chiptune.Proofs.Sequencer.Fixture

/-!
# The score of a song

Take the sound away from a sequencer, that is voices, notes, mutes, volume, notifications and the
bank, and a `Score` is left: the playheads on their streams, the tempo, and the count of ticks and
loops. A score can pass ticks by itself, with `Score.pass`, and `Sequencer.score_runTick` says that
it never misses what was taken away: the score of a sequencer after a tick is the score before it
after a tick. So two sequencers with one score stay together, whatever they sound like.

Frames, seeking and muting are then seen as what they do to the score: nothing but ticks, which
`Score.Passes` lists.
-/

namespace Chiptune

/-- A stream and the place that has been reached in it. -/
structure Part where
  source : TrackSource
  head : Playhead

/-- A song without its sound. -/
structure Score where
  driver : SoundDriver
  commandLimit : Nat
  loopLimit : Option Nat
  parts : List Part
  tempo : Nat
  tick : Nat
  songLoops : Nat
  transport : Transport

/-! ## Ticks of a score

A tick with the sound left out. The definitions follow those of the sequencer one by one. -/

namespace Part

variable (driver : SoundDriver) (limit : Nat)

def tick (p : Part) : Part := { p with head := (p.head.tick driver limit p.source.stream).1 }

/-- What the part asks for in its next tick. -/
def effects (p : Part) : List Effect := (p.head.tick driver limit p.source.stream).2.toList

/-- The part at its loop point, if it can go on from there, and else as it is. -/
def restarted (p : Part) : Part := { p with head := p.head.restart?.getD p.head }

end Part

namespace Score

/-- Tick all parts. Each of them may set the tempo, and the last one to do so has its way. -/
def tickAll (c : Score) : Score :=
  { c with
    parts := c.parts.map (Part.tick c.driver c.commandLimit)
    tempo :=
      (c.parts.flatMap (Part.effects c.driver c.commandLimit)).foldl Effect.tempoAfter c.tempo
    tick := c.tick + 1 }

def endSong (c : Score) : Score := { c with transport := .stopped }

def checkLoopLimit (c : Score) : Score :=
  match c.loopLimit with
  | some limit => if limit ≤ c.songLoops then c.endSong else c
  | none => c

def AllFinished (c : Score) : Prop := ∀ p ∈ c.parts, p.head.IsFinished

instance (c : Score) : Decidable c.AllFinished := inferInstanceAs (Decidable (∀ _ ∈ _, _))

def wrapOrEnd (c : Score) : Score :=
  if c.parts.any fun p => p.head.restart?.isSome then
    { c with
      parts := c.parts.map Part.restarted
      songLoops := c.songLoops + 1 : Score }.checkLoopLimit
  else c.endSong

def commonLoops (c : Score) : Nat :=
  (((c.parts.filter fun p => ¬ p.head.IsFinished).map fun p => p.head.loopCount).min?).getD 0

def countLoops (c : Score) : Score :=
  if c.commonLoops ≤ c.songLoops then c
  else { c with songLoops := c.commonLoops : Score }.checkLoopLimit

/-- Pass one tick. -/
def pass (c : Score) : Score :=
  if c.tickAll.AllFinished then c.tickAll.wrapOrEnd else c.tickAll.countLoops

/-- The next tick takes the parts back to their loop points. -/
def GoesBack (c : Score) : Prop :=
  c.tickAll.AllFinished ∧ ∃ p ∈ c.tickAll.parts, p.head.restart?.isSome

/-- Pass one tick unless the song is over. -/
def next (c : Score) : Score := if c.transport = .playing then c.pass else c

/-- The score of a song that begins. -/
def atStart (config : Config) (song : Song) : Score where
  driver := song.driver
  commandLimit := config.commandLimit
  loopLimit := config.loopLimit
  parts := song.sources.map fun source => ⟨source, .atStart song.driver source.start⟩
  tempo := max 1 song.initialTempo
  tick := 0
  songLoops := 0
  transport := .playing

end Score

/-! ## The score of a sequencer

Projections: what a part of the sequencer does to its score. Most do nothing. -/

def Track.part (t : Track) : Part := ⟨t.source, t.head⟩

namespace Sequencer

/-- What is left of a sequencer without its sound. -/
def score (s : Sequencer) : Score where
  driver := s.driver
  commandLimit := s.config.commandLimit
  loopLimit := s.config.loopLimit
  parts := s.tracks.map Track.part
  tempo := s.tempo
  tick := s.tick
  songLoops := s.songLoops
  transport := s.transport

/-- The playheads of a score are those of the tracks. -/
theorem map_head_parts (s : Sequencer) :
    s.score.parts.map Part.head = s.tracks.map Track.head := List.map_map

@[simp] theorem score_notify (s : Sequencer) (n : Notification) :
    (s.notify n).score = s.score := rfl

@[simp] theorem score_cutVoices (s : Sequencer) : s.cutVoices.score = s.score := by
  simp [score, cutVoices, Track.clearNotes, Track.part, Function.comp_def]

/-- Sounding a frame moves voices and envelopes, and they are no part of the score. -/
@[simp] theorem score_soundFrame (s : Sequencer) : s.soundFrame.2.score = s.score := by
  obtain ⟨pool, envelopeFrames, h, -⟩ := soundFrame_snd s
  rw [h]
  rfl

@[simp] theorem score_setTrackMuted (i : Nat) (muted : Bool) (s : Sequencer) :
    (s.setTrackMuted i muted).2.score = s.score := by
  have hparts := map_tracks_setTrackMuted s i muted Track.part fun _ _ => rfl
  unfold score
  rw [hparts]
  unfold setTrackMuted
  split <;> rfl

/-- Where a song ends, its voices are cut and the host is told, and for the score it only stops. -/
@[simp] theorem score_endSong (s : Sequencer) : s.endSong.score = s.score.endSong := by
  rw [endSong, score_notify, Score.endSong, ← score_cutVoices s]
  rfl

theorem score_checkLoopLimit (s : Sequencer) : s.checkLoopLimit.score = s.score.checkLoopLimit := by
  unfold checkLoopLimit Score.checkLoopLimit
  rw [show s.score.loopLimit = s.config.loopLimit from rfl]
  cases s.config.loopLimit with
  | none => rfl
  | some limit =>
    show (if limit ≤ s.songLoops then s.endSong else s).score =
      if limit ≤ s.songLoops then s.score.endSong else s.score
    split
    · exact score_endSong s
    · rfl

/-- Whether all tracks are at their end can be seen in the score. -/
theorem allFinished_score (s : Sequencer) : s.score.AllFinished ↔ s.AllFinished := by
  simp [score, Score.AllFinished, AllFinished, Track.part, Track.IsFinished]

/-- How often all tracks have gone back can be told from the score. -/
theorem commonLoops_score (s : Sequencer) : s.score.commonLoops = s.commonLoops := by
  -- the tracks that have not ended are the same, with their sound or without
  have hunfinished : s.score.parts.filter (fun p => ¬ p.head.IsFinished) =
      (s.tracks.filter fun t => ¬ t.IsFinished).map Track.part := List.filter_map
  rw [Score.commonLoops, hunfinished, List.map_map]
  rfl

/-- The score tells whether one of the tracks has a loop point to go on from. -/
theorem any_restart_score (s : Sequencer) :
    (s.score.parts.any fun p => p.head.restart?.isSome) =
      s.tracks.any fun t => t.restart?.isSome := by
  simp [score, Track.part, Track.restart?, Function.comp_def]

/-- The song goes round, or ends, and the score does the same. -/
theorem score_wrapOrEnd (s : Sequencer) : s.wrapOrEnd.score = s.score.wrapOrEnd := by
  have hparts : (s.tracks.map fun t => t.restart?.getD t).map Track.part =
      s.score.parts.map Part.restarted := by
    simp only [score, List.map_map]
    refine List.map_congr_left fun t _ => ?_
    show t.restarted.part = t.part.restarted
    rw [Track.restarted_eq]
    rfl
  unfold wrapOrEnd Score.wrapOrEnd
  rw [any_restart_score]
  split
  · rw [score_checkLoopLimit, score_notify, score, hparts]
    rfl
  · exact score_endSong s

/-- Whether a loop is announced makes no difference to the score. -/
theorem score_countLoops (announce : Bool) (s : Sequencer) :
    (s.countLoops announce).score = s.score.countLoops := by
  unfold countLoops Score.countLoops
  rw [commonLoops_score, show s.score.songLoops = s.songLoops from rfl]
  dsimp only
  split
  · rfl
  · rw [score_checkLoopLimit]
    cases announce <;> rfl

/-! ## Ticks need the score alone

What a tick makes of the score is computed from the score. Pool, notes, mutes and bank do not come
into it. -/

/-- Each playhead ticks on its own. What is on the stage is nothing to it. -/
theorem map_part_tickTracks (env : Setting) (tracks : List Track) (stage : Stage) :
    (tickTracks env tracks stage).1.map Track.part =
      (tracks.map Track.part).map (Part.tick env.driver env.commandLimit) := by
  rw [List.map_map]
  refine map_tickTracks env (fun t stage => ?_) tracks stage
  obtain ⟨notes, h⟩ := Track.tick_eq env t stage
  rw [h]
  rfl

/-- The tempo after a tick is made of the effects of all tracks, one behind the other. -/
theorem tempo_tickTracks (env : Setting) (tracks : List Track) (stage : Stage) :
    (tickTracks env tracks stage).2.tempo =
      ((tracks.map Track.part).flatMap (Part.effects env.driver env.commandLimit)).foldl
        Effect.tempoAfter stage.tempo := by
  induction tracks generalizing stage with
  | nil => rfl
  | cons t tracks ih =>
    rw [tickTracks, List.map_cons, List.flatMap_cons, List.foldl_append, ih, Track.tempo_tick]
    rfl

/-- Putting both together: the parts and the tempo are all that the tracks leave in the score. -/
theorem score_tickAll (s : Sequencer) : s.tickAll.score = s.score.tickAll := by
  calc s.tickAll.score
    _ = { s.score with
          parts := (tickTracks s.setting s.tracks s.stage).1.map Track.part
          tempo := (tickTracks s.setting s.tracks s.stage).2.tempo
          tick := s.tick + 1 } := rfl
    _ = s.score.tickAll := by
      rw [map_part_tickTracks, tempo_tickTracks]
      rfl

/-- A tick does to the score what the score does by itself, announced or not. -/
theorem score_runTick (announce : Bool) (s : Sequencer) :
    (s.runTick announce).score = s.score.pass := by
  rw [runTick_eq, Score.pass]
  by_cases h : s.tickAll.AllFinished
  · rw [if_pos h, if_pos (by rwa [← score_tickAll, allFinished_score]), score_wrapOrEnd,
      score_tickAll]
  · rw [if_neg h, if_neg (by rwa [← score_tickAll, allFinished_score]), score_countLoops,
      score_tickAll]

end Sequencer

/-! ## What a tick can do

The cases of a tick, so that later proofs need not unfold it. -/

namespace Score

/-- The song has gone round as often as it may. -/
def LimitReached (c : Score) : Prop := ∃ limit, c.loopLimit = some limit ∧ limit ≤ c.songLoops

/-- At the loop limit the song stops, and nothing else changes. -/
theorem checkLoopLimit_eq (c : Score) :
    ∃ transport, c.checkLoopLimit = { c with transport } ∧
      (transport = c.transport ∨ transport = .stopped ∧ c.LimitReached) := by
  unfold checkLoopLimit
  split
  · next limit hlimit =>
    split
    · next reached => exact ⟨.stopped, rfl, Or.inr ⟨rfl, limit, hlimit, reached⟩⟩
    · exact ⟨c.transport, rfl, Or.inl rfl⟩
  · exact ⟨c.transport, rfl, Or.inl rfl⟩

/-- All that a tick can do besides ticking all parts: count a loop, go back, and end the song. -/
theorem pass_cases (c : Score) :
    ∃ (parts : List Part) (songLoops : Nat) (transport : Transport),
      c.pass = { c.tickAll with parts, songLoops, transport } ∧
      (transport = c.transport ∨
        transport = .stopped ∧ (c.pass.AllFinished ∨ c.pass.LimitReached)) ∧
      (¬ c.GoesBack ∧ parts = c.tickAll.parts ∧ c.songLoops ≤ songLoops ∧
          (songLoops = c.songLoops ∨ songLoops = c.tickAll.commonLoops) ∨
        c.GoesBack ∧ parts = c.tickAll.parts.map Part.restarted ∧ songLoops = c.songLoops + 1) := by
  unfold pass
  split
  -- all parts are at their end, so the song goes back or ends
  · next finished =>
    unfold wrapOrEnd
    split
    · next back =>
      obtain ⟨transport, h, ht⟩ := checkLoopLimit_eq
        { c.tickAll with
          parts := c.tickAll.parts.map Part.restarted
          songLoops := c.tickAll.songLoops + 1 }
      rw [h]
      exact ⟨_, _, transport, rfl, ht.imp_right (And.imp_right Or.inr),
        Or.inr ⟨⟨finished, by simpa using back⟩, rfl, rfl⟩⟩
    · next halted =>
      refine ⟨_, c.songLoops, _, rfl, Or.inr ⟨rfl, Or.inl finished⟩,
        Or.inl ⟨?_, rfl, Nat.le_refl _, Or.inl rfl⟩⟩
      rintro ⟨-, back⟩
      exact halted (by simpa using back)
  -- one part goes on: the song counts a loop if all parts have gone round once more
  · next unfinished =>
    have hback : ¬ c.GoesBack := fun back => unfinished back.1
    unfold countLoops
    split
    · exact ⟨_, c.songLoops, _, rfl, Or.inl rfl, Or.inl ⟨hback, rfl, Nat.le_refl _, Or.inl rfl⟩⟩
    · next more =>
      obtain ⟨transport, h, ht⟩ := checkLoopLimit_eq
        { c.tickAll with songLoops := c.tickAll.commonLoops }
      rw [h]
      exact ⟨_, _, transport, rfl, ht.imp_right (And.imp_right Or.inr),
        Or.inl ⟨hback, rfl, Nat.le_of_lt (Nat.lt_of_not_le more), Or.inr rfl⟩⟩

theorem tempo_pass (c : Score) : c.pass.tempo = c.tickAll.tempo := by
  obtain ⟨_, _, _, h, -, -⟩ := pass_cases c
  rw [h]

/-- Every tick is counted, even the one that ends the song. -/
theorem tick_pass (c : Score) : c.pass.tick = c.tick + 1 := by
  obtain ⟨_, _, _, h, -, -⟩ := pass_cases c
  rw [h]
  rfl

/-- A tick lets the song go on, or it ends it for one of two reasons. -/
theorem transport_pass (c : Score) :
    c.pass.transport = c.transport ∨
      c.pass.transport = .stopped ∧ (c.pass.AllFinished ∨ c.pass.LimitReached) := by
  obtain ⟨_, _, _, h, ht, -⟩ := pass_cases c
  rw [show c.pass.transport = _ from congrArg Score.transport h]
  exact ht

/-! ## Ticks one after the other

`Passes` connects the ticks of frames and of seeks with the iterates of `Score.next`, which is what
both have in common. -/

/-- The sequencers `ticks`, each right after a tick, are what is heard while a score plays on from
one place to another. -/
inductive Passes : Score → List Sequencer → Score → Prop
  | nil (c : Score) : Passes c [] c
  /-- Only a song that plays passes a tick. -/
  | cons {t : Sequencer} {announce : Bool} {ticks : List Sequencer} {c' : Score}
      (playing : t.transport = .playing) (rest : Passes (t.runTick announce).score ticks c') :
      Passes t.score (t.runTick announce :: ticks) c'

variable {c c' c'' : Score} {ticks later : List Sequencer} {q : Sequencer}

theorem next_of_playing (playing : c.transport = .playing) : c.next = c.pass := if_pos playing

/-- A song that does not play stays where it is. -/
theorem next_of_not_playing (halted : c.transport ≠ .playing) : c.next = c := if_neg halted

/-- The next score of a sequencer is the one after its next tick, announced or not. -/
theorem next_score {t : Sequencer} (playing : t.transport = .playing) (announce : Bool) :
    t.score.next = (t.runTick announce).score :=
  (next_of_playing playing).trans (Sequencer.score_runTick announce t).symm

/-- Ticks and later ticks are ticks. -/
theorem Passes.append (h : Passes c ticks c') (h' : Passes c' later c'') :
    Passes c (ticks ++ later) c'' := by
  induction h with
  | nil => exact h'
  | cons playing _ ih => exact .cons playing (ih h')

/-- A score that plays on gets as far as there are ticks. -/
theorem Passes.eq_iterate (h : Passes c ticks c') : c' = next^[ticks.length] c := by
  induction h with
  | nil => rfl
  | @cons t announce _ _ playing _ ih =>
    rw [List.length_cons, Function.iterate_succ_apply, next_score playing announce]
    exact ih

/-- The sequencer after tick number `i`, counted from 0, has the score of that many ticks. -/
theorem Passes.score_getElem? (h : Passes c ticks c') {i : Nat} (hq : ticks[i]? = some q) :
    q.score = next^[i + 1] c := by
  induction h generalizing i with
  | nil => cases hq
  | @cons t announce _ _ playing _ ih =>
    rw [Function.iterate_succ_apply, next_score playing announce]
    cases i with
    | zero =>
      cases hq
      rfl
    | succ i => exact ih hq

/-- Ticks pass only while the song plays. -/
theorem Passes.exists_of_mem (h : Passes c ticks c') (hq : q ∈ ticks) :
    ∃ (t : Sequencer) (announce : Bool), q = t.runTick announce ∧ t.transport = .playing := by
  induction h with
  | nil => cases hq
  | @cons t announce _ _ playing _ ih =>
    rcases List.mem_cons.mp hq with rfl | hq
    · exact ⟨t, announce, rfl, playing⟩
    · exact ih hq

/-- Nothing follows the tick that ends the song. -/
theorem Passes.eq_of_not_playing (h : Passes c ticks c') (hq : q ∈ ticks)
    (halted : q.transport ≠ .playing) : c' = q.score := by
  induction h with
  | nil => cases hq
  | @cons t announce _ _ _ rest ih =>
    rcases List.mem_cons.mp hq with rfl | hq
    · -- another tick could only pass if this one had let the song play on
      generalize hc : (t.runTick announce).score = c at rest
      cases rest with
      | nil => rfl
      | cons playing _ => exact absurd ((congrArg transport hc).trans playing) halted
    · exact ih hq

end Score

namespace Sequencer

variable {s : Sequencer}

/-- The ticks that are paid for in a frame follow one another without a gap. -/
theorem passes_passTicks (count : Nat) (playing : s.transport = .playing) :
    Score.Passes s.score (s.ticksInPass count) (s.passTicks count).score := by
  induction count generalizing s with
  | zero => exact .nil _
  | succ count ih =>
    rw [ticksInPass, passTicks]
    -- to pay for the tick makes no difference to the score
    show Score.Passes ({ s with account := s.account - s.tickPrice } : Sequencer).score _ _
    split
    · next still => exact .cons playing (ih still)
    · exact .cons playing (.nil _)

/-- A frame passes ticks, and otherwise leaves the score alone. -/
theorem passes_nextFrame (s : Sequencer) :
    Score.Passes s.score s.ticksInFrame s.nextFrame.2.score := by
  unfold ticksInFrame nextFrame
  split
  · next playing =>
    have ticked := passes_passTicks (s.account / s.tickPrice) playing
    dsimp only
    split
    · rw [score_soundFrame]
      exact ticked
    · exact ticked
  · exact .nil _

/-- The ticks of many frames pass in the score, because nothing else in a frame touches it. -/
theorem passes_frames (count : Nat) (s : Sequencer) :
    Score.Passes s.score (s.ticksInFrames count)
      ((fun s : Sequencer => s.nextFrame.2)^[count] s).score := by
  induction count generalizing s with
  | zero => exact .nil _
  | succ count ih => exact (passes_nextFrame s).append (ih s.nextFrame.2)

/-- In a seek voices are cut after every tick, which the score does not notice. -/
theorem passes_replay (ticks : Nat) (s : Sequencer) :
    Score.Passes s.score (s.ticksInReplay ticks) (s.replay ticks).score := by
  induction ticks generalizing s with
  | zero => exact .nil _
  | succ ticks ih =>
    rw [ticksInReplay, replay]
    split
    · next playing =>
      refine .cons playing ?_
      rw [← score_cutVoices]
      exact ih _
    · exact .nil _

/-- To replay is to pass ticks, and to cut the voices makes no difference to the score. -/
theorem score_replay (ticks : Nat) (s : Sequencer) :
    (s.replay ticks).score = Score.next^[ticks] s.score := by
  induction ticks generalizing s with
  | zero => rfl
  | succ ticks ih =>
    rw [replay, Function.iterate_succ_apply]
    split
    · next playing =>
      rw [ih, score_cutVoices, score_runTick, Score.next_of_playing playing]
    · next halted =>
      have hover : s.score.transport ≠ .playing := halted
      rw [Score.next_of_not_playing hover, Function.iterate_fixed (Score.next_of_not_playing hover)]

/-- The state in which `seek` has passed its ticks. -/
def sought (target : Nat) (s : Sequencer) : Sequencer :=
  { s.rewind with transport := .playing }.replay (min target s.config.maxSeekTicks)

/-- A seek is its replay, after which the transport is put back unless the song is over. -/
theorem seek_eq (target : Nat) (s : Sequencer) :
    s.seek target =
      { s.sought target with
        transport :=
          if (s.sought target).transport = .playing then s.transport
          else (s.sought target).transport
        account := (s.sought target).tickPrice } := rfl

end Sequencer
end Chiptune
