import Chiptune.Proofs.Checked.Track
import Chiptune.Proofs.Sequencer.Timing

/-!
# A sequencer in words

Time is where a sequencer calculates: the price of a tick and the income of a frame are products,
the ticks that are due are a quotient, and envelopes step after a number of frames that is a
quotient too. Nothing has to be known of the account. When a frame is sounded, all ticks that are
due have been paid for, so what is left is less than the price of one.

What does have to be known of a sequencer is `Sequencer.Fits`. An empty sequencer fits, loading a
song that fits makes it fit, and every move keeps it so (`Sequencer.Fits.move`).
-/

namespace Chiptune.Sequencer

open Checked

/-! ## Calculations

Ticks, frames and requests in turn. Each definition has the shape of the plain one, with the
operations on words in the place of the arithmetic. -/

def checkedTickPrice (s : Sequencer) : Checked Nat := word 64 (s.config.sampleRate * 60)

def checkedFrameIncome (s : Sequencer) : Checked Nat :=
  word 64 (s.tempo * s.driver.profile.ticksPerQuarter)

def checkedEnvelopePeriod (s : Sequencer) : Checked Nat := do
  let frames ← quotient (← word 64 (s.config.sampleRate * 1000)) s.driver.profile.envelopeRate
  return max 1 (← word 32 frames)

/-! ### Ticks -/

def checkedTickTracks (env : Setting) : List Track → Stage → Checked (List Track × Stage)
  | [], stage => return ([], stage)
  | t :: rest, stage => do
    let (t, stage) ← t.checkedTick env stage
    let (rest, stage) ← checkedTickTracks env rest stage
    return (t :: rest, stage)

def checkedTickAll (s : Sequencer) : Checked Sequencer := do
  let (tracks, stage) ← checkedTickTracks s.setting s.tracks s.stage
  let tick ← count .tick (s.tick + 1)
  return { s with tracks, pool := stage.pool, tempo := stage.tempo, notices := stage.notices, tick }

/-- Each track, and where it can go on. -/
def checkedRestarts (tracks : List Track) : Checked (List (Track × Option Track)) :=
  tracks.mapM fun t => do
    let later ← t.checkedRestart?
    return (t, later)

def checkedWrapOrEnd (s : Sequencer) : Checked Sequencer := do
  let restarts ← checkedRestarts s.tracks
  if restarts.any (·.2.isSome) then
    let songLoops ← count .songLoops (s.songLoops + 1)
    let tracks := restarts.map fun (t, later) => later.getD t
    return ({ s with tracks, songLoops }.notify (.loopWrapped songLoops)).checkLoopLimit
  else return s.endSong

def checkedRunTick (announce : Bool) (s : Sequencer) : Checked Sequencer := do
  let s ← s.checkedTickAll
  if s.AllFinished then s.checkedWrapOrEnd else return s.countLoops announce

/-! ### Frames -/

def checkedPassTicks : (count : Nat) → Sequencer → Checked Sequencer
  | 0, s => return s
  | count + 1, s => do
    let account ← less s.account (← s.checkedTickPrice)
    let s ← { s with account }.checkedRunTick true
    if s.transport = .playing then checkedPassTicks count s else return s

def checkedPassDueTicks (s : Sequencer) : Checked Sequencer := do
  let due ← quotient s.account (← s.checkedTickPrice)
  s.checkedPassTicks due

def checkedCountEnvelopeFrame (s : Sequencer) : Checked Sequencer := do
  let envelopeFrames ← word 32 (s.envelopeFrames + 1)
  let period ← s.checkedEnvelopePeriod
  if envelopeFrames < period then return { s with envelopeFrames }
  else
    let pool ← s.pool.checkedMapVoices Voice.checkedStepEnvelope
    return { s with envelopeFrames := 0, pool := pool.reapFinished }

def checkedSoundFrame (s : Sequencer) : Checked (Frame × Sequencer) := do
  let (frame, pool) ← s.pool.checkedRender s.bank s.volume
  let account ← word 64 (s.account + (← s.checkedFrameIncome))
  return (frame, ← { s with pool, account }.checkedCountEnvelopeFrame)

def checkedNextFrame (s : Sequencer) : Checked (Frame × Sequencer) :=
  if s.transport = .playing then do
    let s ← s.checkedPassDueTicks
    if s.transport = .playing then s.checkedSoundFrame else return (.silence, s)
  else return (.silence, s)

def checkedRenderOnto :
    (count : Nat) → (frames : Array Frame) → Sequencer → Checked (Array Frame × Sequencer)
  | 0, frames, s => return (frames, s)
  | count + 1, frames, s => do
    let (frame, s) ← s.checkedNextFrame
    s.checkedRenderOnto count (frames.push frame)

/-! ### Other requests -/

/-- The tracks of a song at their starts, numbered in their order. -/
def checkedTracks (song : Song) : Checked (List Track) :=
  song.sources.zipIdx.mapM fun placed => do
    let index ← word 8 placed.2
    return Track.atStart song.driver index placed.1

def checkedLoad (s : Sequencer) (song : Song) : Checked Sequencer :=
  match s.load song with
  | .ok loaded => do
    let tracks ← checkedTracks song
    let _ ← loaded.checkedEnvelopePeriod
    return { loaded with tracks }
  | .error _ => return s

def checkedPlay (s : Sequencer) : Checked Sequencer := do
  let price ← s.checkedTickPrice
  match s.transport with
  | .playing => return s
  | .paused => return { s with transport := .playing }
  | .stopped =>
    if s.tracks = [] then return s
    else return { (if s.AllFinished then s.rewind else s) with
      account := price, transport := .playing }

def checkedReplay : (ticks : Nat) → Sequencer → Checked Sequencer
  | 0, s => return s
  | ticks + 1, s =>
    if s.transport = .playing then do
      let s ← s.checkedRunTick false
      checkedReplay ticks s.cutVoices
    else return s

def checkedSeek (target : Nat) (s : Sequencer) : Checked Sequencer := do
  let played ← { s.rewind with transport := .playing }.checkedReplay
    (min target s.config.maxSeekTicks)
  let account ← played.checkedTickPrice
  return { played with
    transport := if played.transport = .playing then s.transport else played.transport
    account }

/-! ## What fits

The invariant of a sequencer: its settings, its bank, its tracks, its pool and its tempo are in
range. It says nothing of the length of recordings, and it does not say that counters have room. -/

structure Fits (s : Sequencer) : Prop where
  config : s.config.Fits
  /-- It is divided by. -/
  sampleRate_pos : 0 < s.config.sampleRate
  bank : s.bank.Fits
  track : ∀ t ∈ s.tracks, t.Fits s.driver
  pool : s.pool.Fits
  tempo_lt : s.tempo < 2 ^ 16
  initialTempo_lt : s.initialTempo < 2 ^ 16
  /-- The next step of the envelopes is still to come. -/
  envelopeFrames_lt : s.envelopeFrames < s.envelopePeriod

variable {s s' : Sequencer} {config : Config} {song : Song}

/-- A rate of 0 is taken for 1 before anything is divided by it. -/
theorem fits_empty (h : config.Fits) : (empty config).Fits where
  config := { h with sampleRate_lt := Nat.max_lt.mpr ⟨by decide, h.sampleRate_lt⟩ }
  sampleRate_pos := Nat.le_max_left 1 _
  bank := Bank.fits_empty
  track t ht := by cases ht
  pool := VoicePool.fits_empty _
  tempo_lt := (by decide : SoundDriver.m4a.profile.defaultTempo < 2 ^ 16)
  initialTempo_lt := (by decide : SoundDriver.m4a.profile.defaultTempo < 2 ^ 16)
  envelopeFrames_lt := Profile.envelopePeriod_pos _ _

namespace Fits

theorem setting (f : s.Fits) : s.setting.Fits := ⟨f.bank, f.config.commandLimit_lt⟩

theorem stage (f : s.Fits) : s.stage.Fits := ⟨f.pool, f.tempo_lt⟩

theorem withTracks (f : s.Fits) {tracks : List Track} (h : ∀ t ∈ tracks, t.Fits s.driver) :
    { s with tracks }.Fits :=
  { f with track := h }

/-- Cutting the voices leaves tracks without notes, and free slots. -/
theorem cutVoices (f : s.Fits) : s.cutVoices.Fits :=
  { f with
    pool := f.pool.killAll
    track := fun t ht => by
      obtain ⟨u, hu, rfl⟩ := List.mem_map.mp ht
      exact (f.track u hu).clearNotes }

/-- Rewinding brings back the initial tempo, and no number grows. -/
theorem rewind (f : s.Fits) : s.rewind.Fits :=
  { f with
    pool := f.pool.killAll
    track := fun t ht => by
      obtain ⟨u, hu, rfl⟩ := List.mem_map.mp ht
      exact (f.track u hu).reset s.driver
    tempo_lt := f.initialTempo_lt
    envelopeFrames_lt := Profile.envelopePeriod_pos _ _ }

/-- What is in range in a song is in range in the sequencer that has it loaded. A tempo of 0 is
taken for 1. -/
theorem withSong (f : s.Fits) (h : song.Fits) : (s.withSong song).Fits where
  config := f.config
  sampleRate_pos := f.sampleRate_pos
  bank := h.bank
  track t ht := by
    obtain ⟨u, hu, rfl⟩ := List.mem_map.mp ht
    obtain ⟨i, inside, rfl⟩ := List.mem_mapIdx.mp hu
    exact (Track.fits_atStart (h.source _ (List.getElem_mem inside)) song.driver i).reset
      song.driver
  pool := (VoicePool.fits_empty _).killAll
  tempo_lt := Nat.max_lt.mpr ⟨by decide, h.initialTempo_lt⟩
  initialTempo_lt := Nat.max_lt.mpr ⟨by decide, h.initialTempo_lt⟩
  envelopeFrames_lt := Profile.envelopePeriod_pos _ _

/-- Track by track, each on the stage that the ones before have left. -/
theorem tickTracks {env : Setting} (henv : env.Fits) {tracks : List Track}
    (f : ∀ t ∈ tracks, t.Fits env.driver) {stage : Stage} (g : stage.Fits) :
    (∀ t ∈ (Sequencer.tickTracks env tracks stage).1, t.Fits env.driver) ∧
      (Sequencer.tickTracks env tracks stage).2.Fits := by
  induction tracks generalizing stage with
  | nil => exact ⟨fun t ht => (List.not_mem_nil ht).elim, g⟩
  | cons t tracks ih =>
    obtain ⟨first, g⟩ := (f t List.mem_cons_self).tick henv g
    obtain ⟨others, g⟩ := ih (fun u hu => f u (List.mem_cons_of_mem t hu)) g
    exact ⟨fun u hu => (List.mem_cons.mp hu).elim (fun e => e ▸ first) (others u), g⟩

/-- The tick itself is counted without a bound, so nothing is asked of it. -/
theorem tickAll (f : s.Fits) : s.tickAll.Fits := by
  obtain ⟨tracks, stage⟩ := tickTracks f.setting f.track f.stage
  exact { f with track := tracks, pool := stage.pool, tempo_lt := stage.tempo_lt }

/-- Going around to a loop point restores a status that was in range before. -/
theorem restarted (f : s.Fits) : ∀ t ∈ s.tracks.map Track.restarted, t.Fits s.driver := by
  intro t ht
  obtain ⟨u, hu, rfl⟩ := List.mem_map.mp ht
  unfold Track.restarted
  cases h : u.restart? with
  | none => exact f.track u hu
  | some later => exact (f.track u hu).restart? h

/-- A tick of a song, whether it goes on, goes around or ends. -/
theorem runTick (announce : Bool) (f : s.Fits) : (s.runTick announce).Fits := by
  obtain ⟨tracks, songLoops, notices, htracks, h⟩ := runTick_cases announce s
  have fits : { s.tickAll with tracks, songLoops, notices }.Fits := by
    rcases htracks with rfl | rfl
    · exact { f.tickAll with }
    · exact { f.tickAll.withTracks f.tickAll.restarted with }
  rcases h with h | h
  · exact h ▸ fits
  · exact h ▸ { fits.cutVoices with }

/-- The frames until the next step of the envelopes start from 0 before they reach the period. -/
theorem countEnvelopeFrame (f : s.Fits) : s.countEnvelopeFrame.Fits := by
  unfold Sequencer.countEnvelopeFrame
  split
  · next early => exact { f with envelopeFrames_lt := early }
  · exact
      { f with
        pool := f.pool.stepEnvelopes.reapFinished
        envelopeFrames_lt := Profile.envelopePeriod_pos _ _ }

/-- The voices have moved on by a frame, and it has been paid for. -/
theorem sounded (f : s.Fits) (account : Nat) :
    { s with pool := s.pool.advance s.bank, account }.Fits :=
  { f with pool := f.pool.advance f.bank }

theorem soundFrame (f : s.Fits) : s.soundFrame.2.Fits := (f.sounded _).countEnvelopeFrame

/-- Muting changes nothing that has a size. -/
theorem setTrackMuted (f : s.Fits) (i : Nat) (muted : Bool) :
    (s.setTrackMuted i muted).2.Fits := by
  unfold Sequencer.setTrackMuted
  split
  · next t ht =>
    refine { f with pool := f.pool.mapTrack _ fun h => h.setMuted muted, track := ?_ }
    intro u hu
    rcases List.mem_or_eq_of_mem_set hu with old | rfl
    · exact f.track u old
    · exact { f.track t (List.mem_of_getElem? ht) with }
  · exact f

/-- Whatever goes on inside a loaded song, everything stays in range. -/
theorem move (h : Move s s') (f : s.Fits) : s'.Fits := by
  cases h with
  | rewind => exact f.rewind
  | tick announce => exact f.runTick announce
  | cut => exact f.cutVoices
  | sound => exact f.soundFrame
  | mute i muted => exact f.setTrackMuted i muted
  | adjust transport account volume notices => exact { f with }

/-- The bounds hold at the end of any number of moves. -/
theorem moves (h : Moves s s') (f : s.Fits) : s'.Fits := h.invariant move f

end Fits

/-! ## The results of the calculations

Each calculation has one lemma. Those that count something give their result unless a counter is
full. Those that sound something answer where `renderOnto?` does. -/

/-- The price of a tick is a minute of frames. -/
theorem checkedTickPrice_eq (f : s.Fits) : s.checkedTickPrice = .ok s.tickPrice := by
  have := f.config.sampleRate_lt
  exact word_eq (by omega)

/-- A tick is never free, or a frame would never end. -/
theorem tickPrice_pos (f : s.Fits) : 0 < s.tickPrice :=
  Nat.mul_pos f.sampleRate_pos (by decide)

/-- No driver has more than 48 ticks to a quarter note. -/
theorem frameIncome_lt (f : s.Fits) : s.frameIncome < 2 ^ 24 := by
  have hticks : s.driver.profile.ticksPerQuarter ≤ 48 := by cases s.driver <;> decide
  have : s.tempo * s.driver.profile.ticksPerQuarter ≤ 65535 * 48 :=
    Nat.mul_le_mul (Nat.le_of_lt_succ f.tempo_lt) hticks
  unfold frameIncome
  omega

theorem checkedFrameIncome_eq (f : s.Fits) : s.checkedFrameIncome = .ok s.frameIncome :=
  word_eq (Nat.lt_trans (frameIncome_lt f) (by decide))

/-- All drivers step their envelopes more often than once a second. -/
theorem period_lt (f : s.Fits) :
    s.config.sampleRate * 1000 / s.driver.profile.envelopeRate < 2 ^ 32 := by
  have hrate : 1000 ≤ s.driver.profile.envelopeRate := by cases s.driver <;> decide
  calc _ ≤ s.config.sampleRate * 1000 / 1000 := Nat.div_le_div_left hrate (by decide)
    _ = s.config.sampleRate := Nat.mul_div_cancel _ (by decide)
    _ < 2 ^ 32 := f.config.sampleRate_lt

/-- The rate of the steps is a constant of the driver, and not 0. -/
theorem checkedEnvelopePeriod_eq (f : s.Fits) :
    s.checkedEnvelopePeriod = .ok s.envelopePeriod := by
  have := f.config.sampleRate_lt
  have hrate : s.driver.profile.envelopeRate ≠ 0 := by cases s.driver <;> decide
  unfold checkedEnvelopePeriod
  rw [word_eq (by omega), ok_bind, quotient_eq hrate, ok_bind, word_eq (period_lt f)]
  rfl

/-! ### Ticks -/

/-- Each track finds the stage in range, because the tracks before it have kept it so. -/
theorem gives_checkedTickTracks {env : Setting} (henv : env.Fits) {tracks : List Track}
    (f : ∀ t ∈ tracks, t.Fits env.driver) {stage : Stage} (g : stage.Fits) :
    Gives (checkedTickTracks env tracks stage) (tickTracks env tracks stage) := by
  induction tracks generalizing stage with
  | nil => exact .ok _
  | cons t tracks ih =>
    have ht := f t List.mem_cons_self
    refine (Track.gives_checkedTick henv ht g).bind ?_
    exact (ih (fun u hu => f u (List.mem_cons_of_mem t hu)) (ht.tick henv g).2).bind (.ok _)

/-- Behind the tracks there is only the tick to be counted. -/
theorem gives_checkedTickAll (f : s.Fits) : Gives s.checkedTickAll s.tickAll :=
  (gives_checkedTickTracks f.setting f.track f.stage).bind ((Gives.count _ _).bind (.ok _))

/-- Every track that has a loop point counts that it has gone back. -/
theorem gives_checkedRestarts (tracks : List Track) :
    Gives (checkedRestarts tracks) (tracks.map fun t => (t, t.restart?)) :=
  Gives.mapM fun t _ => (Track.gives_checkedRestart? t).bind (.ok _)

/-- The song goes around if a track does, and this is counted once. -/
theorem gives_checkedWrapOrEnd (s : Sequencer) : Gives s.checkedWrapOrEnd s.wrapOrEnd := by
  refine (gives_checkedRestarts s.tracks).bind ?_
  -- whether any track goes around is asked of the pairs in one place, of the tracks in the other
  have same : (s.tracks.map fun t => (t, t.restart?)).any (·.2.isSome) =
      s.tracks.any fun t => t.restart?.isSome := List.any_map
  unfold wrapOrEnd
  rw [same]
  split
  · rw [List.map_map]
    exact (Gives.count _ _).bind (.ok _)
  · exact .ok _

theorem gives_checkedRunTick (announce : Bool) (f : s.Fits) :
    Gives (s.checkedRunTick announce) (s.runTick announce) := by
  rw [runTick_eq]
  refine (gives_checkedTickAll f).bind ?_
  split
  · exact gives_checkedWrapOrEnd _
  · exact .ok _

/-! ### Frames -/

/-- The account pays for each tick before it runs, so it never falls below zero. -/
theorem gives_checkedPassTicks {count : Nat} (f : s.Fits)
    (afford : count * s.tickPrice ≤ s.account) :
    Gives (s.checkedPassTicks count) (s.passTicks count) := by
  induction count generalizing s with
  | zero => exact .ok _
  | succ count ih =>
    -- what the account can pay for `count + 1` ticks, it can pay for one and then for `count`
    rw [Nat.succ_mul] at afford
    -- the account is not bounded by what fits, so paying keeps everything in range
    have paid : { s with account := s.account - s.tickPrice }.Fits := { f with }
    rw [checkedPassTicks, checkedTickPrice_eq f, ok_bind, less_eq (by omega), ok_bind, passTicks]
    refine (gives_checkedRunTick true paid).bind ?_
    have ticked := paid.runTick true
    obtain ⟨tracks, pool, notices, transport, tempo, songLoops, h⟩ :=
      runTick_shape true { s with account := s.account - s.tickPrice }
    rw [h] at ticked ⊢
    dsimp only
    split
    · exact ih ticked (Nat.le_sub_of_add_le afford)
    · exact .ok _

/-- The ticks that are due are those that the account can pay for. -/
theorem gives_checkedPassDueTicks (f : s.Fits) :
    Gives s.checkedPassDueTicks s.passDueTicks := by
  have price := tickPrice_pos f
  unfold checkedPassDueTicks passDueTicks
  rw [checkedTickPrice_eq f, ok_bind, quotient_eq (by omega), ok_bind]
  exact gives_checkedPassTicks f (Nat.div_mul_le_self _ _)

/-- No tick is due before its price is on the account. -/
theorem checkedPassDueTicks_of_lt (f : s.Fits) (early : s.account < s.tickPrice) :
    s.checkedPassDueTicks = .ok s := by
  have price := tickPrice_pos f
  unfold checkedPassDueTicks
  rw [checkedTickPrice_eq f, ok_bind, quotient_eq (by omega), ok_bind, Nat.div_eq_of_lt early]
  rfl

/-- The ticks that are due cost all of the account but a part of one more. -/
theorem account_lt_of_passDueTicks (f : s.Fits) (playing : s.transport = .playing)
    (going : s.passDueTicks.transport = .playing) :
    s.passDueTicks.account < s.passDueTicks.tickPrice := by
  obtain ⟨⟨tracks, pool, notices, tempo, songLoops, h⟩, -⟩ :=
    passTicks_shape playing (show (s.passTicks (s.account / s.tickPrice)).transport = _ from going)
  have h : s.passDueTicks = _ := h
  rw [h]
  show s.account - s.account / s.tickPrice * s.tickPrice < s.tickPrice
  have := Nat.div_add_mod' s.account s.tickPrice
  have := Nat.mod_lt s.account (tickPrice_pos f)
  omega

/-- The period is never 0, so that the frame counter is always below it. -/
theorem checkedCountEnvelopeFrame_eq (f : s.Fits) :
    s.checkedCountEnvelopeFrame = .ok s.countEnvelopeFrame := by
  have frames := f.envelopeFrames_lt
  have period : s.envelopePeriod < 2 ^ 32 := Nat.max_lt.mpr ⟨by decide, period_lt f⟩
  unfold checkedCountEnvelopeFrame countEnvelopeFrame
  rw [word_eq (by omega), ok_bind, checkedEnvelopePeriod_eq f, ok_bind]
  split
  · rfl
  · rw [VoicePool.checkedMapVoices_eq f.pool fun v hv => Voice.checkedStepEnvelope_eq hv]
    rfl

/-- What is left on the account after the ticks, and the income of a frame, fit into 64 bits
together. -/
theorem checkedSoundFrame_eq (f : s.Fits) (paid : s.account < s.tickPrice)
    (fit : s.pool.PlacesFit s.bank) : s.checkedSoundFrame = .ok s.soundFrame := by
  have income := frameIncome_lt f
  have rate := f.config.sampleRate_lt
  unfold tickPrice at paid
  -- the price of a tick and the income of a frame fit 64 bits together
  unfold checkedSoundFrame
  rw [VoicePool.checkedRender_eq f.bank s.volume f.pool, if_pos fit, ok_bind]
  dsimp only
  rw [checkedFrameIncome_eq f, ok_bind, word_eq (by omega), ok_bind]
  have counted := checkedCountEnvelopeFrame_eq (f.sounded (s.account + s.frameIncome))
  unfold VoicePool.render
  dsimp only
  rw [counted]
  rfl

/-- One place that does not fit ends the frame of all voices. -/
theorem checkedSoundFrame_overflow (f : s.Fits) (long : ¬ s.pool.PlacesFit s.bank) :
    s.checkedSoundFrame = .error .overflow := by
  rw [checkedSoundFrame, VoicePool.checkedRender_eq f.bank s.volume f.pool, if_neg long]
  rfl

/-- The sound of a frame comes after the ticks that are due. -/
theorem checkedNextFrame_of_ticked {ticked : Sequencer} (playing : s.transport = .playing)
    (h : s.checkedPassDueTicks = .ok ticked) (going : ticked.transport = .playing) :
    s.checkedNextFrame = ticked.checkedSoundFrame := by
  rw [checkedNextFrame, if_pos playing, h, ok_bind, if_pos going]

/-- Where no step of the envelopes is due, a frame moves all voices on and does no more to them. -/
theorem voices_soundFrame (early : s.envelopeFrames + 1 < s.envelopePeriod) :
    s.soundFrame.2.pool.voices = s.pool.voices.map (Voice.advance s.bank) := by
  unfold soundFrame countEnvelopeFrame
  dsimp only
  split
  · exact VoicePool.voices_mapVoices _ _
  · next due => exact absurd early due

/-- A frame has an answer where no voice that sounds in it has a place that does not fit. -/
theorem answers_checkedNextFrame (f : s.Fits) : Answers s.checkedNextFrame s.nextFrame? := by
  unfold checkedNextFrame nextFrame? soundFrame?
  by_cases playing : s.transport = .playing
  · rw [if_pos playing, if_pos playing]
    refine (gives_checkedPassDueTicks f).bind_answers ?_
    dsimp only
    -- the song may end in the ticks that are due, and then no sound is asked for
    by_cases going : s.passDueTicks.transport = .playing
    · rw [if_pos going, if_pos going]
      have fits : s.passDueTicks.Fits := f.moves (moves_passTicks _ s)
      split
      · next fit =>
        rw [checkedSoundFrame_eq fits (account_lt_of_passDueTicks f playing going) fit]
        exact .ok _
      · next long =>
        rw [checkedSoundFrame_overflow fits long]
        exact .overflow
    · rw [if_neg going, if_neg going]
      exact .ok _
  · rw [if_neg playing, if_neg playing]
    exact .ok _

/-- Where there is a frame, it is the one that large numbers give. -/
theorem nextFrame?_eq_some {r : Frame × Sequencer} (h : s.nextFrame? = some r) :
    s.nextFrame = r := by
  unfold nextFrame? soundFrame? at h
  unfold nextFrame
  by_cases playing : s.transport = .playing
  · rw [if_pos playing] at h ⊢
    dsimp only at h ⊢
    by_cases going : s.passDueTicks.transport = .playing
    · rw [if_pos going] at h ⊢
      split at h
      · exact Option.some.inj h
      · cases h
    · rw [if_neg going] at h ⊢
      exact Option.some.inj h
  · rw [if_neg playing] at h ⊢
    exact Option.some.inj h

/-- A rendering comes out in words exactly as far as all places in waves can be worked out. -/
theorem answers_checkedRenderOnto (count : Nat) (frames : Array Frame) (f : s.Fits) :
    Answers (s.checkedRenderOnto count frames) (s.renderOnto? count frames) := by
  induction count generalizing frames s with
  | zero => exact .ok _
  | succ count ih =>
    refine (answers_checkedNextFrame f).bind fun next h => ih _ ?_
    rw [← nextFrame?_eq_some h]
    exact f.moves (moves_nextFrame s)

/-- Where there is a rendering, it is the one that large numbers give. -/
theorem renderOnto?_eq_some {count : Nat} {frames : Array Frame} {r : Array Frame × Sequencer}
    (h : s.renderOnto? count frames = some r) : s.renderOnto count frames = r := by
  induction count generalizing frames s with
  | zero => exact Option.some.inj h
  | succ count ih =>
    obtain ⟨next, first, rest⟩ := Option.bind_eq_some_iff.mp h
    rw [renderOnto, nextFrame?_eq_some first]
    exact ih rest

/-- The recordings belong to what nothing changes while a song is loaded. -/
theorem bank_of_moves (h : Moves s s') : s'.bank = s.bank :=
  congrArg Fixture.bank (fixture_of_moves h)

/-- With short recordings there is always a next frame. -/
theorem nextFrame?_of_short (short : s.bank.Short) : s.nextFrame? = some s.nextFrame := by
  have bank : s.passDueTicks.bank = s.bank := bank_of_moves (moves_passTicks _ s)
  have fit : s.passDueTicks.pool.PlacesFit s.passDueTicks.bank :=
    VoicePool.placesFit_of_short (bank ▸ short) _
  unfold nextFrame? nextFrame soundFrame?
  dsimp only
  rw [if_pos fit]
  split
  · split <;> rfl
  · rfl

/-- With short recordings there is every rendering. -/
theorem renderOnto?_of_short (short : s.bank.Short) (count : Nat) (frames : Array Frame) :
    s.renderOnto? count frames = some (s.renderOnto count frames) := by
  induction count generalizing frames s with
  | zero => rfl
  | succ count ih =>
    have bank : s.nextFrame.2.bank = s.bank := bank_of_moves (moves_nextFrame s)
    rw [renderOnto?, nextFrame?_of_short short]
    exact ih (bank ▸ short) _

/-- Only where a recording is too long can a rendering overflow. -/
theorem givesUnless_checkedRenderOnto (count : Nat) (frames : Array Frame) (f : s.Fits) :
    GivesUnless (¬ s.bank.Short) (s.checkedRenderOnto count frames)
      (s.renderOnto count frames) := by
  refine (answers_checkedRenderOnto count frames f).givesUnless ?_ fun none short => ?_
  · exact fun r h => (renderOnto?_eq_some h).symm
  · rw [renderOnto?_of_short short] at none
    cases none

/-! ### Other requests -/

/-- The tracks of a song are few enough to be numbered by a word of 8 bits. -/
theorem checkedTracks_eq (s : Sequencer) (few : song.sources.length ≤ maxTracks) :
    checkedTracks song = .ok (s.withSong song).tracks := by
  have tracks : (s.withSong song).tracks =
      song.sources.zipIdx.map fun placed => Track.atStart song.driver placed.2 placed.1 := by
    simp [withSong, rewind, List.mapIdx_eq_zipIdx_map, Track.reset, Track.atStart,
      Function.comp_def]
  rw [tracks]
  refine mapM_eq fun placed mem => ?_
  have := List.snd_lt_of_mem_zipIdx mem
  unfold maxTracks at few
  rw [word_eq (by omega)]
  rfl

/-- A song that is refused costs no arithmetic. One that is taken is in range. -/
theorem checkedLoad_eq (f : s.Fits) (h : song.Fits) :
    s.checkedLoad song = .ok (s.answer (.load song)) := by
  rw [answer]
  unfold checkedLoad
  cases hload : s.load song with
  | error e => rfl
  | ok loaded =>
    obtain ⟨⟨-, few⟩, rfl⟩ := load_eq_ok_iff.mp hload
    dsimp only
    rw [checkedTracks_eq s few, ok_bind, checkedEnvelopePeriod_eq (f.withSong h)]
    rfl

/-- Starting puts the price of one tick on the account, so that the first frame has one due. -/
theorem checkedPlay_eq (f : s.Fits) : s.checkedPlay = .ok s.play := by
  unfold checkedPlay play
  rw [checkedTickPrice_eq f, ok_bind]
  cases s.transport with
  | playing => rfl
  | paused => rfl
  | stopped =>
    dsimp only
    split
    · rfl
    · split
      · rfl
      · rfl

/-- The ticks of a seek are not paid for, and they are not heard. -/
theorem gives_checkedReplay (ticks : Nat) (f : s.Fits) :
    Gives (s.checkedReplay ticks) (s.replay ticks) := by
  induction ticks generalizing s with
  | zero => exact .ok _
  | succ ticks ih =>
    rw [checkedReplay, replay]
    split
    · exact (gives_checkedRunTick false f).bind (ih (f.runTick false).cutVoices)
    · exact .ok _

/-- A seek replays from the start, and ends with the price of a tick on the account. -/
theorem gives_checkedSeek (target : Nat) (f : s.Fits) :
    Gives (s.checkedSeek target) (s.seek target) := by
  have rewound : { s.rewind with transport := .playing }.Fits := { f.rewind with }
  refine (gives_checkedReplay _ rewound).bind ?_
  rw [checkedTickPrice_eq (rewound.moves (moves_replay _ _))]
  exact .ok _

end Chiptune.Sequencer
