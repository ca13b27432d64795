import Chiptune.Proofs.Checked.Playhead
import Chiptune.Proofs.Checked.VoicePool
import Chiptune.Proofs.Track.Ownership

/-!
# A track in words

A track hands the numbers of its controls on to its voices, so what is in range for the playhead
has to be in range for a voice too. Its own arithmetic is small: keys are transposed, volumes are
multiplied, and the ticks of timed notes are counted down. A note is dropped in the very tick in
which it comes down to zero (`Track.Fits.timed`), and that is why the next countdown does not go
below.

`Track.gives_checkedTick` is the statement for a tick.
-/

namespace Chiptune

open Checked

/-! ## Calculations

What a track does between its playhead and the pool: keys are transposed, voices are made, notes are
held and counted down. -/

def Note.checkedCountDown (n : Note) : Checked Note :=
  match n.remaining with
  | some ticks => do
    let ticks ← less ticks 1
    return { n with remaining := some ticks }
  | none => return n

def Controls.checkedLevel (c : Controls) : Checked Nat := do
  word 8 ((← word 32 (c.volume * c.expression)) / 127)

namespace Track

def checkedTransposed (key : Nat) (transpose : Int) : Checked Nat := do
  let sum ← signed 16 (key + transpose)
  word 8 (min (max 0 sum).toNat 127)

def checkedVoiceFor (env : Setting) (index : Nat) (muted : Bool) (key velocity : Nat)
    (c : Controls) : Checked (Except ResourceError Voice) :=
  match env.bank.resolve c.program key with
  | none => return .error (.missingInstrument c.program key)
  | some (instrument, soundingKey) =>
    match sampleRate? env.bank instrument.source with
    | none => return .error (.missingSample c.program)
    | some rate => do
      let envelope ← Envelope.checkedStart env.driver.profile.envelopeModel
        (c.envelope.apply instrument.adsr)
      let voice := Voice.start instrument rate index key soundingKey velocity envelope
      let voice ← voice.checkedRetune c.bend c.bendRange env.sampleRate
      let voice ← voice.checkedSetMix (← c.checkedLevel) c.pan
      return .ok (voice.setMuted muted)

def checkedMakeRoom (t : Track) (st : Stage) : Checked (Track × Stage) :=
  if t.notes.length < greatestNotes then return (t, st)
  else do
    let oldest ← entry t.notes.toArray 0
    return ({ t with notes := t.notes.drop 1 }, st.releaseNotes [oldest])

def checkedHold (key : Nat) (duration : Option Nat) (voice : Voice) (t : Track) (st : Stage) :
    Checked (Track × Stage) := do
  let (t, st) ← t.checkedMakeRoom st
  let (handle, pool) ← st.pool.checkedAllocate voice
  return ({ t with notes := t.notes ++ [⟨handle, key, duration.map (max 1)⟩] }, { st with pool })

def checkedNoteOn (env : Setting) (key velocity : Nat) (duration : Option Nat) (c : Controls)
    (t : Track) (st : Stage) : Checked (Track × Stage) := do
  let key ← checkedTransposed key c.transpose
  match ← checkedVoiceFor env t.index t.muted key velocity c with
  | .ok voice => t.checkedHold key duration voice st
  | .error e => return (t, st.notify (.resourceMissing t.index e))

/-- The other effects calculate nothing. -/
def checkedApply (env : Setting) (t : Track) (st : Stage) : Effect → Checked (Track × Stage)
  | .noteOn key velocity duration c => t.checkedNoteOn env key velocity duration c st
  | .mix c => do
    let level ← c.checkedLevel
    let pool ← st.pool.checkedMapTrack t.index (·.checkedSetMix level c.pan)
    return (t, { st with pool })
  | .tune c => do
    let pool ← st.pool.checkedMapTrack t.index (·.checkedRetune c.bend c.bendRange env.sampleRate)
    return (t, { st with pool })
  | e => return t.apply env st e

def checkedApplyAll (env : Setting) : List Effect → Track → Stage → Checked (Track × Stage)
  | [], t, st => return (t, st)
  | e :: effects, t, st => do
    let (t, st) ← t.checkedApply env st e
    checkedApplyAll env effects t st

def checkedCountDown (t : Track) (st : Stage) : Checked (Track × Stage) := do
  let notes ← t.notes.mapM Note.checkedCountDown
  return { t with notes }.endNotes (fun n => n.IsExpired ∨ (st.pool.get? n.handle).isNone) st

def checkedTick (env : Setting) (t : Track) (st : Stage) : Checked (Track × Stage) :=
  if t.IsFinished then return (t, st)
  else do
    let (t, st) ← t.checkedCountDown st
    let (head, effects) ← t.head.checkedTick env.driver env.commandLimit t.source.stream
    checkedApplyAll env effects.toList { t with head } st

def checkedRestart? (t : Track) : Checked (Option Track) := do
  return (← t.head.checkedRestart?).map ({ t with head := · })

end Track

/-! ## What fits

The invariant of a track and of the stage that it plays on. Every change to a track keeps it, from
holding one note to a whole tick. -/

structure Stage.Fits (st : Stage) : Prop where
  pool : st.pool.Fits
  tempo_lt : st.tempo < 2 ^ 16

structure Setting.Fits (env : Setting) : Prop where
  bank : env.bank.Fits
  commandLimit_lt : env.commandLimit < 2 ^ 32 - 1

/-- The track plays a stream that fits, and is in range itself. -/
structure Track.Fits (driver : SoundDriver) (t : Track) : Prop where
  source : t.source.Fits
  head : t.head.Fits driver t.source
  /-- A note too many pushes the oldest one out. -/
  length_le : t.notes.length ≤ greatestNotes
  /-- A note that is timed has at least one tick to go. -/
  timed : ∀ n ∈ t.notes, ∀ ticks, n.remaining = some ticks → 1 ≤ ticks

section

variable {driver : SoundDriver} {t : Track} {st : Stage} {env : Setting} {c : Controls} {e : Effect}

namespace Stage.Fits

theorem notify (f : st.Fits) (n : Notification) : (st.notify n).Fits := { f with }

/-- Releasing notes touches nothing on the stage but their voices. -/
theorem releaseNotes (f : st.Fits) (notes : List Note) : (st.releaseNotes notes).Fits where
  pool := by
    rw [Track.releaseNotes_pool]
    exact f.pool.releaseAll _
  tempo_lt := f.tempo_lt

end Stage.Fits

/-- What is known of the controls is enough to bend a pitch. -/
theorem Controls.Fits.bendFits (f : c.Fits) : Pitch.BendFits c.bend c.bendRange :=
  ⟨f.bend_bounds.1, f.bend_bounds.2, f.bendRange_lt⟩

namespace Track

/-- At the start of a song a track holds no notes. -/
theorem fits_atStart {source : TrackSource} (h : source.Fits) (driver : SoundDriver)
    (index : Nat) : (atStart driver index source).Fits driver where
  source := h
  head := Playhead.fits_atStart driver source
  length_le := Nat.zero_le _
  timed n hn := by cases hn

/-- A key that is transposed too far stays at the highest one. -/
theorem transposed_le (key : Nat) (transpose : Int) : transposed key transpose ≤ 127 :=
  Nat.min_le_right _ _

/-- The instrument of a key is one of the bank's, and so is its key. -/
theorem resolve_fits {bank : Bank} (hbank : bank.Fits) {program key : Nat} (hkey : key < 2 ^ 8)
    {instrument : Instrument} {soundingKey : Nat}
    (found : bank.resolve program key = some (instrument, soundingKey)) :
    instrument.Fits ∧ soundingKey < 2 ^ 8 := by
  obtain ⟨p, hp, found⟩ := Option.bind_eq_some_iff.mp found
  obtain ⟨i, hi, found⟩ := Option.bind_eq_some_iff.mp found
  cases found
  have fits := hbank.instrument hp hi
  refine ⟨fits, ?_⟩
  unfold Instrument.soundingKey
  cases hfixed : instrument.fixedKey with
  | none => exact hkey
  | some fixed => exact fits.fixedKey_lt fixed hfixed

/-- The rate is the one of a recording, and tones have a constant one. -/
theorem sampleRate?_lt {bank : Bank} (hbank : bank.Fits) {source : SoundSource} {rate : Nat}
    (found : sampleRate? bank source = some rate) : rate < 2 ^ 32 := by
  have recorded : ∀ {sample}, (bank.sample? sample).map Sample.rate = some rate →
      rate < 2 ^ 32 := by
    intro sample found
    obtain ⟨s, hs, rfl⟩ := Option.map_eq_some_iff.mp found
    exact (hbank.sample hs).rate_lt
  cases source with
  | pcm sample => exact recorded found
  | wave sample => exact recorded found
  | square duty =>
    cases found
    decide
  | noise mode =>
    cases found
    decide

/-- The voice of a key, before it is given its pitch and its level. -/
theorem started_fits (henv : env.Fits) {key : Nat} (hkey : key < 2 ^ 8) {instrument : Instrument}
    {soundingKey rate : Nat}
    (resolved : env.bank.resolve c.program key = some (instrument, soundingKey))
    (hrate : sampleRate? env.bank instrument.source = some rate) (index velocity : Nat) :
    (Voice.start instrument rate index key soundingKey velocity
      (Envelope.start env.driver.profile.envelopeModel
        (c.envelope.apply instrument.adsr))).Fits := by
  obtain ⟨hinstrument, hsounding⟩ := resolve_fits henv.bank hkey resolved
  exact Voice.Fits.start hinstrument (sampleRate?_lt henv.bank hrate) hsounding
    (Envelope.Fits.start _ _) index key velocity

/-- The voice of a key as it starts to sound. -/
theorem voiceFor_fits (henv : env.Fits) {index key velocity : Nat} {muted : Bool} {voice : Voice}
    (hkey : key < 2 ^ 8) (h : voiceFor env index muted key velocity c = .ok voice) :
    voice.Fits := by
  unfold voiceFor at h
  split at h
  · cases h
  · next instrument soundingKey resolved =>
    split at h
    · cases h
    · next rate hrate =>
      cases h
      have started := started_fits henv hkey resolved hrate index velocity
      exact ((started.retune _ _ _).setMix _ _).setMuted _

namespace Fits

/-- Keep only some of the notes. -/
theorem keep (f : t.Fits driver) {notes : List Note} (kept : notes.Sublist t.notes) :
    { t with notes }.Fits driver :=
  { f with
    length_le := Nat.le_trans kept.length_le f.length_le
    timed := fun n hn => f.timed n (kept.subset hn) }

/-- Holding no notes is always in range. -/
theorem clearNotes (f : t.Fits driver) : t.clearNotes.Fits driver :=
  f.keep (List.nil_sublist _)

/-- A track that starts again fits the driver that it is started for. -/
theorem reset (f : t.Fits driver) (driver' : SoundDriver) : (t.reset driver').Fits driver' :=
  { fits_atStart f.source driver' t.index with }

/-- The playhead goes on from its loop point and the notes stay. -/
theorem restart? (f : t.Fits driver) {later : Track} (h : t.restart? = some later) :
    later.Fits driver := by
  obtain ⟨head, hhead, rfl⟩ := Option.map_eq_some_iff.mp h
  exact { f with head := f.head.restart? hhead }

/-- The notes that are held on are among those that were held, and the others are released. -/
theorem endNotes (f : t.Fits driver) (g : st.Fits) (ends : Note → Bool) :
    (t.endNotes ends st).1.Fits driver ∧ (t.endNotes ends st).2.Fits :=
  ⟨f.keep List.filter_sublist, g.releaseNotes _⟩

/-- Where a track holds as many notes as it may, the oldest one is given up. -/
theorem makeRoom (f : t.Fits driver) (g : st.Fits) :
    (t.makeRoom st).1.Fits driver ∧ (t.makeRoom st).1.notes.length < greatestNotes ∧
      (t.makeRoom st).2.Fits := by
  unfold Track.makeRoom
  split
  · next room => exact ⟨f, room, g⟩
  · refine ⟨f.keep (List.drop_sublist 1 _), ?_, g.releaseNotes _⟩
    have := f.length_le
    rw [List.length_drop]
    unfold greatestNotes at *
    omega

/-- After room has been made, one more note is not too many. -/
theorem hold (f : t.Fits driver) (g : st.Fits) (key : Nat) (duration : Option Nat) {voice : Voice}
    (hvoice : voice.Fits) :
    (t.hold key duration voice st).1.Fits driver ∧ (t.hold key duration voice st).2.Fits := by
  obtain ⟨f, room, g⟩ := f.makeRoom g
  refine ⟨{ f with length_le := ?_, timed := ?_ }, { g with pool := g.pool.allocate hvoice }⟩
  · refine Nat.le_trans (Nat.le_of_eq ?_) room
    exact List.length_append
  · intro n hn ticks hticks
    rcases List.mem_append.mp hn with old | new
    · exact f.timed n old ticks hticks
    · -- a note of no duration lasts one tick
      cases List.mem_singleton.mp new
      obtain ⟨d, -, rfl⟩ := Option.map_eq_some_iff.mp hticks
      exact Nat.le_max_left 1 d

/-- A note whose instrument or recording is missing is told to the host instead. -/
theorem noteOn (henv : env.Fits) (f : t.Fits driver) (g : st.Fits) (key velocity : Nat)
    (duration : Option Nat) (c : Controls) :
    (t.noteOn env key velocity duration c st).1.Fits driver ∧
      (t.noteOn env key velocity duration c st).2.Fits := by
  unfold Track.noteOn
  dsimp only
  split
  · next voice hvoice =>
    have hkey := transposed_le key c.transpose
    exact f.hold g _ duration (voiceFor_fits henv (by omega) hvoice)
  · exact ⟨f, g.notify _⟩

/-- Whatever a playhead asks for, in range, leaves the track and the stage in range. -/
theorem apply (henv : env.Fits) (f : t.Fits driver) (g : st.Fits) (he : e.Fits) :
    (t.apply env st e).1.Fits driver ∧ (t.apply env st e).2.Fits := by
  cases e with
  | noteOn key velocity duration c => exact f.noteOn henv g key velocity duration c
  | noteOff key => exact f.endNotes g _
  | mix c => exact ⟨f, { g with pool := g.pool.mapTrack _ fun h => h.setMix _ _ }⟩
  | tune c => exact ⟨f, { g with pool := g.pool.mapTrack _ fun h => h.retune _ _ _ }⟩
  | tempo bpm => exact ⟨f, { g with tempo_lt := Nat.max_lt.mpr ⟨by decide, he⟩ }⟩
  | ended => exact f.endNotes g _
  | failed error =>
    obtain ⟨f, g⟩ := f.endNotes g fun _ => true
    exact ⟨f, g.notify _⟩

/-- All effects of a tick, one after the other. -/
theorem applyAll (henv : env.Fits) {effects : List Effect} (asked : ∀ e ∈ effects, e.Fits)
    (f : t.Fits driver) (g : st.Fits) :
    (applyAll env effects t st).1.Fits driver ∧ (applyAll env effects t st).2.Fits := by
  induction effects generalizing t st with
  | nil => exact ⟨f, g⟩
  | cons e effects ih =>
    obtain ⟨f, g⟩ := f.apply henv g (asked e List.mem_cons_self)
    exact ih (fun e he => asked e (List.mem_cons_of_mem _ he)) f g

/-- The notes that come down to zero in a countdown are not held any longer. -/
theorem countDown (f : t.Fits driver) (g : st.Fits) :
    (t.countDown st).1.Fits driver ∧ (t.countDown st).2.Fits := by
  refine ⟨{ f with length_le := ?_, timed := ?_ }, g.releaseNotes _⟩
  · refine Nat.le_trans (List.length_filter_le _ _) ?_
    rw [List.length_map]
    exact f.length_le
  · -- a note that has come down to zero is expired, and so it does not stay
    intro n hn ticks hticks
    obtain ⟨-, stays⟩ := List.mem_filter.mp hn
    refine Nat.one_le_iff_ne_zero.mpr fun zero => ?_
    rw [zero] at hticks
    simp [Note.IsExpired, hticks] at stays

/-- A tick: first the countdown, then the playhead, then what it asks for. -/
theorem tick (henv : env.Fits) (f : t.Fits env.driver) (g : st.Fits) :
    (t.tick env st).1.Fits env.driver ∧ (t.tick env st).2.Fits := by
  by_cases done : t.IsFinished
  · rw [tick_of_isFinished done]
    exact ⟨f, g⟩
  · rw [tick_of_not_isFinished done]
    obtain ⟨counted, g⟩ := f.countDown g
    obtain ⟨hhead, asked⟩ := f.head.tick env.commandLimit
    exact applyAll henv (fun e he => asked e (Array.mem_toList_iff.mp he))
      { counted with head := hhead } g

end Fits
end Track

/-! ## The results of the calculations

A track traps nowhere, and counts what its playhead counts and the serial numbers of its voices. -/

/-- Two levels of 7 bits and a division by 127 make a level of 7 bits. -/
theorem Controls.checkedLevel_eq (f : c.Fits) : c.checkedLevel = .ok c.level := by
  have product : c.volume * c.expression ≤ 127 * 127 :=
    Nat.mul_le_mul f.volume_le f.expression_le
  unfold checkedLevel level
  rw [word_eq (by omega), ok_bind, word_eq (by omega)]

namespace Track

/-- The sum is clamped to a key only after it has been calculated, with a sign. -/
theorem checkedTransposed_eq {key : Nat} (hkey : key ≤ 127) (f : c.Fits) :
    checkedTransposed key c.transpose = .ok (transposed key c.transpose) := by
  obtain ⟨low, high⟩ := f.transpose_bounds
  have := transposed_le key c.transpose
  unfold transposed at this
  unfold checkedTransposed transposed
  rw [signed_eq (by omega) (by omega), ok_bind, word_eq (by omega)]

/-- A voice can be made for every key that was read, or it is told what is missing. -/
theorem checkedVoiceFor_eq (henv : env.Fits) (f : c.Fits) {key : Nat} (hkey : key < 2 ^ 8)
    (index velocity : Nat) (muted : Bool) :
    checkedVoiceFor env index muted key velocity c =
      .ok (voiceFor env index muted key velocity c) := by
  unfold checkedVoiceFor voiceFor
  cases resolved : env.bank.resolve c.program key with
  | none => rfl
  | some found =>
    obtain ⟨instrument, soundingKey⟩ := found
    dsimp only
    cases hrate : sampleRate? env.bank instrument.source with
    | none => rfl
    | some rate =>
      have started := started_fits henv hkey resolved hrate index velocity
      dsimp only
      rw [Envelope.checkedStart_eq, ok_bind, Voice.checkedRetune_eq started f.bendFits, ok_bind,
        Controls.checkedLevel_eq f, ok_bind, Voice.checkedSetMix_eq (started.retune _ _ _).leveled,
        ok_bind]
      rfl

/-- There is an oldest note where there are too many. -/
theorem checkedMakeRoom_eq (t : Track) (st : Stage) :
    t.checkedMakeRoom st = .ok (t.makeRoom st) := by
  unfold checkedMakeRoom makeRoom
  split
  · rfl
  · next full =>
    -- a track without room has a first note to let go of
    cases hnotes : t.notes with
    | nil => exact absurd (hnotes ▸ (by decide : ([] : List Note).length < greatestNotes)) full
    | cons oldest others =>
      rw [entry_eq (a := oldest) rfl]
      rfl

/-- A voice that is given a slot takes the next serial number, and this is counted. -/
theorem gives_checkedHold (f : t.Fits driver) (g : st.Fits) (key : Nat) (duration : Option Nat)
    (voice : Voice) :
    Gives (t.checkedHold key duration voice st) (t.hold key duration voice st) := by
  obtain ⟨-, -, g⟩ := f.makeRoom g
  unfold checkedHold hold
  rw [checkedMakeRoom_eq, ok_bind]
  exact (VoicePool.gives_checkedAllocate g.pool voice).bind (.ok _)

/-- The whole way from a key to a voice in its slot. -/
theorem gives_checkedNoteOn (henv : env.Fits) (f : t.Fits driver) (g : st.Fits) {key : Nat}
    (hkey : key ≤ 127) (hc : c.Fits) (velocity : Nat) (duration : Option Nat) :
    Gives (t.checkedNoteOn env key velocity duration c st)
      (t.noteOn env key velocity duration c st) := by
  have := transposed_le key c.transpose
  unfold checkedNoteOn noteOn
  rw [checkedTransposed_eq hkey hc, ok_bind, checkedVoiceFor_eq henv hc (by omega), ok_bind]
  dsimp only
  cases voiceFor env t.index t.muted (transposed key c.transpose) velocity c with
  | ok voice => exact gives_checkedHold f g _ duration voice
  | error e => exact .ok _

/-- Of all effects, only starting a note counts something. -/
theorem gives_checkedApply (henv : env.Fits) (f : t.Fits driver) (g : st.Fits) (he : e.Fits) :
    Gives (t.checkedApply env st e) (t.apply env st e) := by
  cases e with
  | noteOn key velocity duration c =>
    exact gives_checkedNoteOn henv f g he.1 he.2 velocity duration
  | mix c =>
    refine .of_eq ?_
    rw [checkedApply, Controls.checkedLevel_eq he, ok_bind, VoicePool.checkedMapTrack_eq g.pool _
      fun v hv => Voice.checkedSetMix_eq hv.leveled c.level c.pan]
    rfl
  | tune c =>
    refine .of_eq ?_
    rw [checkedApply, VoicePool.checkedMapTrack_eq g.pool _
      fun v hv => Voice.checkedRetune_eq hv he.bendFits env.sampleRate]
    rfl
  | _ => exact .ok _

/-- Each effect finds the track and the stage in range. -/
theorem gives_checkedApplyAll (henv : env.Fits) {effects : List Effect}
    (asked : ∀ e ∈ effects, e.Fits) (f : t.Fits driver) (g : st.Fits) :
    Gives (checkedApplyAll env effects t st) (applyAll env effects t st) := by
  induction effects generalizing t st with
  | nil => exact .ok _
  | cons e effects ih =>
    have he := asked e List.mem_cons_self
    obtain ⟨f', g'⟩ := f.apply henv g he
    exact (gives_checkedApply henv f g he).bind
      (ih (fun e he => asked e (List.mem_cons_of_mem _ he)) f' g')

/-- Each note that is timed has a tick to go, so taking one off does not go below zero. -/
theorem checkedCountDown_eq (f : t.Fits driver) (st : Stage) :
    t.checkedCountDown st = .ok (t.countDown st) := by
  have counted : t.notes.mapM Note.checkedCountDown = .ok (t.notes.map Note.countDown) := by
    refine mapM_eq fun n hn => ?_
    unfold Note.checkedCountDown Note.countDown
    cases hr : n.remaining with
    | none =>
      cases n
      cases hr
      rfl
    | some ticks =>
      dsimp only
      rw [less_eq (f.timed n hn ticks hr)]
      rfl
  rw [checkedCountDown, counted]
  rfl

/-- In words, a tick of a track comes out as it does in plain numbers. -/
theorem gives_checkedTick (henv : env.Fits) (f : t.Fits env.driver) (g : st.Fits) :
    Gives (t.checkedTick env st) (t.tick env st) := by
  unfold checkedTick
  by_cases done : t.IsFinished
  · rw [tick_of_isFinished done, if_pos done]
    exact .ok _
  · rw [tick_of_not_isFinished done, if_neg done, checkedCountDown_eq f, ok_bind]
    obtain ⟨counted, g⟩ := f.countDown g
    obtain ⟨hhead, asked⟩ := f.head.tick env.commandLimit
    refine (Playhead.gives_checkedTick f.source henv.commandLimit_lt f.head).bind ?_
    exact gives_checkedApplyAll henv (fun e he => asked e (Array.mem_toList_iff.mp he))
      { counted with head := hhead } g

/-- What a track calculates when it goes back is what its playhead calculates. -/
theorem gives_checkedRestart? (t : Track) : Gives t.checkedRestart? t.restart? :=
  (Playhead.gives_checkedRestart? t.head).bind (.ok _)

end Track
end
end Chiptune
