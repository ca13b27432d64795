import Chiptune.Proofs.Checked.History
import Chiptune.Proofs.Sequencer.Fixture
import Chiptune.Proofs.Session.Offline
import Chiptune.Proofs.Wav.RoundTrip

/-!
# Rendering offline in words

The rate that was asked for goes two ways. The sequencer raises it to at least one and works at
that rate from the first frame to the last (`Offline.RendersAt`). The header of the file gets it as
it was asked for, and the bytes of a second are calculated from it in 32 bits.

So a file tells the rate of its sound unless that was asked to be zero, and there is no file at all
for 2^30 frames a second or more, nor for so many frames that the sizes in the header outgrow their
32 bits (`Offline.file_tells_rate`).
-/

namespace Chiptune

open Bytes Checked

/-! ## Files in words

A header has room for 32 bits. The rate times four and the length of the data plus 36 may be more,
and nothing is in the way of that before the header is written. -/

namespace Wav

variable {file : ByteArray} {frames : Array Frame} {sampleRate rate : Nat}

/-- The file of some frames. The length of their row is cut to 32 bits before it is multiplied. -/
def checkedEncode (frames : Array Frame) (sampleRate : Nat) : Checked ByteArray := do
  let _ ← word 64 (headerSize + (← word 64 (frames.size * frameSize)))
  let dataSize ← word 32 (frames.size % 2 ^ 32 * frameSize)
  let byteRate ← word 32 (sampleRate * frameSize)
  let riffSize ← word 32 (headerSize - 8 + dataSize)
  let fields : Fields :=
    ⟨riffSize, 16, 1, channels, sampleRate, byteRate, frameSize, bitsPerLevel, dataSize⟩
  return (fields.bytes ++ frames.toList.flatMap Frame.bytes).toByteArray

/-- The two numbers of a header that may be too large for it. -/
theorem fits_iff :
    Fits frames sampleRate ↔ 4 * sampleRate < 2 ^ 32 ∧ 36 + 4 * frames.size < 2 ^ 32 := by
  have width : span 4 = 2 ^ 32 := by decide
  simp only [Fits, riffSize, byteRate, dataSize, frameSize, channels, bitsPerLevel, headerSize,
    width]
  omega

/-- As long as the frames themselves are few enough, all that can go wrong is in the header. -/
theorem checkedEncode_eq (few : 4 * frames.size < 2 ^ 32) :
    checkedEncode frames sampleRate =
      match encode? frames sampleRate with
      | some file => .ok file
      | none => .error .overflow := by
  -- in words the sizes are worked out before anything is written
  have second : sampleRate * frameSize = 4 * sampleRate := Nat.mul_comm _ _
  have sizes : dataSize frames = 4 * frames.size := Nat.mul_comm _ _
  have data : frames.size % 2 ^ 32 * frameSize = dataSize frames := by
    rw [Nat.mod_eq_of_lt (by omega)]
    rfl
  have row : frames.size * frameSize = dataSize frames := rfl
  unfold checkedEncode
  rw [row, word_eq (by omega), ok_bind, word_eq (by unfold headerSize; omega), ok_bind, data,
    word_eq (by omega), ok_bind]
  cases written : encode? frames sampleRate with
  | some file =>
    obtain ⟨fits, same⟩ := encode?_eq_some_iff.mp written
    obtain ⟨slow, small⟩ := fits_iff.mp fits
    rw [word_eq (by omega), ok_bind, word_eq (by unfold headerSize; omega), same, header_eq]
    rfl
  | none =>
    -- one of the two sizes is too large, and the rate comes first
    have large : ¬ (4 * sampleRate < 2 ^ 32 ∧ 36 + 4 * frames.size < 2 ^ 32) := fun fits => by
      rw [encode?, if_pos (fits_iff.mpr fits)] at written
      cases written
    rcases Nat.lt_or_ge (sampleRate * frameSize) (2 ^ 32) with slow | fast
    · have long : ¬ headerSize - 8 + dataSize frames < 2 ^ 32 := by
        unfold headerSize
        omega
      rw [word_eq slow, ok_bind, word, if_neg long]
      rfl
    · rw [word, if_neg (Nat.not_lt.mpr fast)]
      rfl

/-- The header names this rate, and the bytes that a second takes at it. -/
def TellsRate (file : ByteArray) (rate : Nat) : Prop :=
  little? file 4 24 = some rate ∧ little? file 4 28 = some (4 * rate)

/-- A written file tells the rate that it was written with and no other. -/
theorem tellsRate_iff (written : encode? frames sampleRate = some file) :
    TellsRate file rate ↔ rate = sampleRate := by
  obtain ⟨-, named, second, -⟩ := little?_of_fields? (fields?_of_encode? written)
  have second : little? file 4 28 = some (4 * sampleRate) := second.trans (by
    rw [fieldsOf, byteRate, Nat.mul_comm]
    rfl)
  have named : little? file 4 24 = some sampleRate := named
  unfold TellsRate
  rw [named, second]
  constructor
  · rintro ⟨same, -⟩
    exact (Option.some.inj same).symm
  · rintro rfl
    exact ⟨rfl, rfl⟩

end Wav

/-! ## Songs in words

The rendering itself multiplies the rate by the seconds and then runs the sequencer. What holds of
whole runs in words holds here, with the excuse of an overlong recording. -/

namespace Sequencer

variable {s : Sequencer}

def checkedRenderBlocks (block limit : Nat) (frames : Array Frame) (s : Sequencer) :
    Checked (Array Frame × Sequencer) :=
  if _h : 0 < limit ∧ s.transport = .playing then do
    let count := min limit (max 1 block)
    let (frames, s) ← s.checkedRenderOnto count frames
    checkedRenderBlocks block (limit - count) frames s
  else return (frames, s)
termination_by limit
decreasing_by omega

/-- Blocks render in words unless a recording is too long. -/
theorem givesUnless_checkedRenderBlocks (block limit : Nat) (frames : Array Frame) (f : s.Fits) :
    GivesUnless (¬ s.bank.Short) (s.checkedRenderBlocks block limit frames)
      (s.renderBlocks block limit frames) := by
  fun_induction renderBlocks block limit frames s with
  | case1 limit frames s h count frames' s' rendered ih =>
    have moved : Moves s s' := by
      have moves := moves_answer (s := s) (r := .render count) fun _ e => by cases e
      rwa [answer_render, ← renderOnto_snd count frames, rendered] at moves
    have later := ih (f.moves moved)
    rw [bank_of_moves moved] at later
    rw [checkedRenderBlocks, dif_pos h]
    have block := givesUnless_checkedRenderOnto count frames f
    rw [rendered] at block
    exact block.bind later
  | case2 limit frames s h =>
    rw [checkedRenderBlocks, dif_neg h]
    exact .gives (.ok _)

end Sequencer

namespace Offline

variable {source : SongSource} {index sampleRate seconds : Nat} {loops : Option Nat}
  {config : Config} {song : Song} {frames : Array Frame} {e : LoadError}

/-- The frames of a song, for at most `seconds`. Room for a minute is made beforehand. -/
def checkedRender (source : SongSource) (index : Nat) (config : Config) (seconds : Nat) :
    Checked (Except LoadError (Array Frame)) :=
  match source.find index with
  | .error e => return .error e
  | .ok song => do
    let limit ← word 64 (config.sampleRate * seconds)
    let s := Sequencer.empty config
    let _ ← s.checkedEnvelopePeriod
    let loaded ← s.checkedLoad song
    match s.load song with
    | .error e => return .error (.song e)
    | .ok _ =>
      let s ← loaded.checkedPlay
      let _ ← word 64 (config.sampleRate * 60)
      let (frames, _) ← s.checkedRenderBlocks blockSize limit #[]
      return .ok frames

/-- The choices for the file of a song that goes round at most `loops` times. -/
def wavConfig (sampleRate : Nat) (loops : Option Nat) : Config :=
  { ({} : Config).withSampleRate sampleRate with loopLimit := loops }

/-- The file of a song. Its header gets the rate that was asked for. -/
def checkedRenderWav (source : SongSource) (index sampleRate : Nat) (loops : Option Nat)
    (seconds : Nat) : Checked (Except LoadError ByteArray) := do
  match ← checkedRender source index (wavConfig sampleRate loops) seconds with
  | .error e => return .error e
  | .ok frames => return .ok (← Wav.checkedEncode frames sampleRate)

/-- The rate that a song is rendered at: the one that the sequencer works at before the first frame
and after each. -/
def RendersAt (source : SongSource) (index : Nat) (config : Config) (rate : Nat) : Prop :=
  ∃ s, source.loadInto index (.empty config) = .ok s ∧
    ∀ n, (s.play.answer (.render n)).config.sampleRate = rate

/-- The settings that a file is rendered with are within bounds for every rate. -/
theorem fits_wavConfig (hrate : sampleRate < 2 ^ 32) (loops : Option Nat) :
    (wavConfig sampleRate loops).Fits where
  sampleRate_lt := Nat.max_lt.mpr ⟨by decide, hrate⟩
  commandLimit_lt := (by decide : 1000 < 2 ^ 32 - 1)

/-- An offline rendering succeeds when the song loads, and then it is the blocks of that song. -/
theorem render_eq_ok_iff :
    render source index config seconds = .ok frames ↔
      ∃ s, source.loadInto index (.empty config) = .ok s ∧
        (s.play.renderBlocks blockSize (config.sampleRate * seconds) #[]).1 = frames := by
  unfold render
  cases source.loadInto index (.empty config) with
  | error e => simp [bind, Except.bind]
  | ok s => simp [bind, Except.bind, pure, Except.pure, Sequencer.renderUntilStopped]

/-- A rate of zero is raised to one. -/
theorem rendersAt_of_render
    (rendered : render source index (wavConfig sampleRate loops) seconds = .ok frames) :
    RendersAt source index (wavConfig sampleRate loops) (max 1 sampleRate) := by
  obtain ⟨s, loading, -⟩ := render_eq_ok_iff.mp rendered
  refine ⟨s, loading, fun n => ?_⟩
  obtain ⟨song, -, accepted⟩ := SongSource.loadInto_eq_ok_iff.mp loading
  have asked : s.play.answer (.render n) =
      (Sequencer.empty (wavConfig sampleRate loops)).after [.load song, .play, .render n] := by
    rw [Sequencer.after_cons, Sequencer.answer, accepted]
    rfl
  rw [asked, Sequencer.config_after]
  exact Nat.max_eq_right (Nat.le_max_left 1 sampleRate)

/-- The numbers of a rendering fit their words, but for the counters. -/
theorem checkedRender_eq (hconfig : config.Fits) (short : config.sampleRate * seconds < 2 ^ 64)
    (found : source.find index = .ok song) (hsong : song.Fits) :
    checkedRender source index config seconds =
      match (Sequencer.empty config).load song with
      | .error e => .ok (.error (.song e))
      | .ok s => do
        let (frames, _) ←
          s.play.checkedRenderBlocks blockSize (config.sampleRate * seconds) #[]
        return .ok frames := by
  have start := Sequencer.fits_empty hconfig
  have rate := hconfig.sampleRate_lt
  have loading := Sequencer.checkedLoad_eq start hsong
  unfold checkedRender
  rw [found]
  dsimp only
  rw [word_eq short, ok_bind, Sequencer.checkedEnvelopePeriod_eq start, ok_bind, loading, ok_bind,
    Sequencer.answer]
  -- all that is calculated up to here fits, so what is left is to render
  cases accepted : (Sequencer.empty config).load song with
  | error e => rfl
  | ok s =>
    obtain ⟨-, rfl⟩ := Sequencer.load_eq_ok_iff.mp accepted
    dsimp only
    rw [Sequencer.checkedPlay_eq (start.withSong hsong), ok_bind, word_eq (by omega), ok_bind]

/-- A song that does not load is reported in words as it is without. -/
theorem checkedRender_of_error (hconfig : config.Fits)
    (short : config.sampleRate * seconds < 2 ^ 64)
    (hsong : ∀ song, source.find index = .ok song → song.Fits)
    (failed : render source index config seconds = .error e) :
    checkedRender source index config seconds = .ok (.error e) := by
  unfold render SongSource.loadInto at failed
  -- there is no such song, or it cannot be loaded: nothing has been calculated yet
  cases found : source.find index with
  | error e' =>
    rw [found] at failed
    cases failed
    rw [checkedRender, found]
    rfl
  | ok song =>
    rw [checkedRender_eq hconfig short found (hsong song found)]
    rw [found] at failed
    cases accepted : (Sequencer.empty config).load song with
    | error e' =>
      simp only [bind, Except.bind, accepted, Except.mapError] at failed
      cases failed
      rfl
    | ok s =>
      simp only [bind, Except.bind, accepted, Except.mapError] at failed
      cases failed

/-- The song that was found has a recording of more than 2^32 levels. -/
def HasOverlong (source : SongSource) (index : Nat) : Prop :=
  ∃ song, source.find index = .ok song ∧ ¬ song.bank.Short

/-- A song that loads is rendered in words unless it holds a recording that is too long. -/
theorem givesUnless_checkedRender (hconfig : config.Fits)
    (short : config.sampleRate * seconds < 2 ^ 64)
    (hsong : ∀ song, source.find index = .ok song → song.Fits)
    (rendered : render source index config seconds = .ok frames) :
    GivesUnless (HasOverlong source index) (checkedRender source index config seconds)
      (.ok frames) := by
  obtain ⟨s, loading, rfl⟩ := render_eq_ok_iff.mp rendered
  obtain ⟨song, found, accepted⟩ := SongSource.loadInto_eq_ok_iff.mp loading
  obtain ⟨-, same⟩ := Sequencer.load_eq_ok_iff.mp accepted
  have fits : s.play.Fits :=
    same ▸ ((Sequencer.fits_empty hconfig).withSong (hsong song found)).moves
      (Sequencer.moves_play _)
  rw [checkedRender_eq hconfig short found (hsong song found), accepted]
  have sounds := Sequencer.givesUnless_checkedRenderBlocks blockSize
    (config.sampleRate * seconds) #[] fits
  -- the recordings of the sequencer are those of the song
  have bank : s.play.bank = song.bank := by
    rw [Sequencer.bank_of_moves (Sequencer.moves_play s), same]
    rfl
  rw [bank] at sounds
  exact (sounds.mono fun long => ⟨song, found, long⟩).bind (.gives (.ok _))

/-! ## Files of songs in words

Rendering and writing one behind the other. There are four ways to end, and each of them is told
apart by something that can be seen from outside: the song does not load, a counter is full, words
overflow, or there is a file. -/

/-- A rendering never has more frames than there is time for. -/
theorem size_render_le (rendered : render source index config seconds = .ok frames) :
    frames.size ≤ config.sampleRate * seconds := by
  obtain ⟨s, -, rfl⟩ := render_eq_ok_iff.mp rendered
  obtain ⟨count, ends, sound⟩ := Sequencer.exists_blockEnd (show 0 < blockSize by decide)
    (config.sampleRate * seconds) #[] s.play
  rw [← Array.length_toList, sound]
  simpa using ends.count_le

/-- The number of frames to render at most is a product of two words and fits a word of 64 bits. -/
theorem limit_lt (hrate : sampleRate < 2 ^ 32) (hseconds : seconds < 2 ^ 32) :
    (wavConfig sampleRate loops).sampleRate * seconds < 2 ^ 64 := by
  have rate : (wavConfig sampleRate loops).sampleRate ≤ 2 ^ 32 - 1 :=
    Nat.le_sub_one_of_lt (fits_wavConfig hrate loops).sampleRate_lt
  calc (wavConfig sampleRate loops).sampleRate * seconds
    _ ≤ (2 ^ 32 - 1) * (2 ^ 32 - 1) := Nat.mul_le_mul rate (Nat.le_sub_one_of_lt hseconds)
    _ < 2 ^ 64 := by decide

/-- A file holds what was rendered, under the rate that was asked for. -/
theorem renderWav?_of_render
    (rendered : render source index (wavConfig sampleRate loops) seconds = .ok frames) :
    renderWav? source index sampleRate loops seconds = .ok (Wav.encode? frames sampleRate) :=
  congrArg (Except.map (Wav.encode? · sampleRate)) rendered

/-- Without a song there is no file, in words as well. -/
theorem checkedRenderWav_of_error (hrate : sampleRate < 2 ^ 32) (hseconds : seconds < 2 ^ 32)
    (hsong : ∀ song, source.find index = .ok song → song.Fits)
    (failed : render source index (wavConfig sampleRate loops) seconds = .error e) :
    checkedRenderWav source index sampleRate loops seconds = .ok (.error e) := by
  unfold checkedRenderWav
  rw [checkedRender_of_error (fits_wavConfig hrate loops) (limit_lt hrate hseconds) hsong failed]
  rfl

/-- Behind the frames comes the file, if they could be sounded and no counter has run full. -/
theorem checkedRenderWav_cases (hrate : sampleRate < 2 ^ 32) (hseconds : seconds < 2 ^ 32)
    (hsong : ∀ song, source.find index = .ok song → song.Fits)
    (rendered : render source index (wavConfig sampleRate loops) seconds = .ok frames) :
    checkedRenderWav source index sampleRate loops seconds =
        (Wav.checkedEncode frames sampleRate).map .ok ∨
      (∃ c, checkedRenderWav source index sampleRate loops seconds = .error (.full c)) ∨
      checkedRenderWav source index sampleRate loops seconds = .error .overflow ∧
        HasOverlong source index := by
  have sounded := givesUnless_checkedRender (fits_wavConfig hrate loops) (limit_lt hrate hseconds)
    hsong rendered
  unfold checkedRenderWav
  -- either the sound is right, or a counter is full, or there is the overlong recording
  rcases sounded.cases with gives | ⟨overflow, long⟩
  · cases calculated : checkedRender source index (wavConfig sampleRate loops) seconds with
    | ok result =>
      rw [calculated] at gives
      cases gives
      exact .inl rfl
    | error trap =>
      rw [calculated] at gives
      cases gives with
      | full c => exact .inr (.inl ⟨c, rfl⟩)
  · rw [overflow]
    exact .inr (.inr ⟨rfl, long⟩)

/-- If the header has room for the numbers, the file is written in words unless a recording is too
long. -/
theorem givesUnless_checkedRenderWav (hrate : sampleRate < 2 ^ 32) (hseconds : seconds < 2 ^ 32)
    (hsong : ∀ song, source.find index = .ok song → song.Fits)
    (rendered : render source index (wavConfig sampleRate loops) seconds = .ok frames)
    (fits : Wav.Fits frames sampleRate) :
    ∃ file, Wav.encode? frames sampleRate = some file ∧
      GivesUnless (HasOverlong source index)
        (checkedRenderWav source index sampleRate loops seconds) (.ok file) := by
  have few : 4 * frames.size < 2 ^ 32 := by
    have := (Wav.fits_iff.mp fits).2
    omega
  obtain ⟨file, written⟩ : ∃ file, Wav.encode? frames sampleRate = some file := ⟨_, if_pos fits⟩
  have ways := checkedRenderWav_cases hrate hseconds hsong rendered
  rw [Wav.checkedEncode_eq few, written] at ways
  refine ⟨file, written, ?_⟩
  rcases ways with ended | ⟨c, full⟩ | ⟨overflow, long⟩
  · exact ended ▸ .gives (.ok _)
  · exact full ▸ .gives (.full c _)
  · exact overflow ▸ .overflow long _

/-- If the header has no room for the numbers, words overflow at the latest when it is written. -/
theorem checkedRenderWav_of_not_fits (hrate : sampleRate < 2 ^ 32) (hseconds : seconds < 2 ^ 32)
    (hsong : ∀ song, source.find index = .ok song → song.Fits)
    (rendered : render source index (wavConfig sampleRate loops) seconds = .ok frames)
    (few : 4 * frames.size < 2 ^ 32) (large : ¬ Wav.Fits frames sampleRate) :
    checkedRenderWav source index sampleRate loops seconds = .error .overflow ∨
      ∃ c, checkedRenderWav source index sampleRate loops seconds = .error (.full c) := by
  have unwritten : Wav.encode? frames sampleRate = none := if_neg large
  have ways := checkedRenderWav_cases hrate hseconds hsong rendered
  rw [Wav.checkedEncode_eq few, unwritten] at ways
  rcases ways with overflow | full | ⟨overflow, -⟩
  · exact .inl overflow
  · exact .inr full
  · exact .inl overflow

/-- What becomes of a song that is rendered to a file in words. If it cannot be loaded, the error is
given. Otherwise, and if its frames take less than 2^32 bytes, it is rendered at the rate that was
asked for, or at one if that is zero. If the header fits, there is a file that names the rate that
was asked for and four times as much, which is the rate of the sound if and only if it is not zero.
If the header does not fit, the calculation ends in an overflow. In both cases a counter of the
sequencer may run full before, and a recording that is too long may overflow. -/
theorem file_tells_rate (source : SongSource) (index sampleRate : Nat) (loops : Option Nat)
    (seconds : Nat) (hrate : sampleRate < 2 ^ 32) (hseconds : seconds < 2 ^ 32)
    (hsong : ∀ song, source.find index = .ok song → song.Fits) :
    (∀ e, render source index (wavConfig sampleRate loops) seconds = .error e →
      checkedRenderWav source index sampleRate loops seconds = .ok (.error e)) ∧
    ∀ frames, render source index (wavConfig sampleRate loops) seconds = .ok frames →
      4 * frames.size < 2 ^ 32 →
      RendersAt source index (wavConfig sampleRate loops) (max 1 sampleRate) ∧
      (4 * sampleRate < 2 ^ 32 ∧ 36 + 4 * frames.size < 2 ^ 32 →
        ∃ file, renderWav? source index sampleRate loops seconds = .ok (some file) ∧
          (Gives (checkedRenderWav source index sampleRate loops seconds) (.ok file) ∨
            checkedRenderWav source index sampleRate loops seconds = .error .overflow ∧
              HasOverlong source index) ∧
          Wav.TellsRate file sampleRate ∧
          (Wav.TellsRate file (max 1 sampleRate) ↔ sampleRate ≠ 0)) ∧
      (¬ (4 * sampleRate < 2 ^ 32 ∧ 36 + 4 * frames.size < 2 ^ 32) →
        renderWav? source index sampleRate loops seconds = .ok none ∧
        (checkedRenderWav source index sampleRate loops seconds = .error .overflow ∨
          ∃ c, checkedRenderWav source index sampleRate loops seconds = .error (.full c))) := by
  refine ⟨fun e => checkedRenderWav_of_error hrate hseconds hsong, fun frames rendered few => ?_⟩
  rw [renderWav?_of_render rendered, ← Wav.fits_iff]
  refine ⟨rendersAt_of_render rendered, fun fits => ?_, fun large => ?_⟩
  · obtain ⟨file, written, ways⟩ := givesUnless_checkedRenderWav hrate hseconds hsong rendered fits
    refine ⟨file, congrArg _ written, ways.cases, (Wav.tellsRate_iff written).mpr rfl, ?_⟩
    rw [Wav.tellsRate_iff written]
    omega
  · exact ⟨congrArg _ (if_neg large),
      checkedRenderWav_of_not_fits hrate hseconds hsong rendered few large⟩

/-- A song with less than one tick a second. -/
def slowNote : Song := { Song.calledNote with initialTempo := 2 }

theorem fits_slowNote (song : Song) (found : (SongSource.ofArray #[slowNote]).find 0 = .ok song) :
    song.Fits := by
  cases found
  exact { Song.fits_calledNote with initialTempo_lt := (by decide : 2 < 2 ^ 16) }

theorem not_hasOverlong_slowNote : ¬ HasOverlong (SongSource.ofArray #[slowNote]) 0 := by
  rintro ⟨song, found, long⟩
  cases found
  exact long (Bank.short_of_no_samples rfl)

theorem file_tells_rate_slowNote :
    let source : SongSource := .ofArray #[slowNote]
    (∀ song, source.find 0 = .ok song → song.Fits) ∧ RendersAt source 0 (wavConfig 8 none) 8 ∧
      ∃ file, checkedRenderWav source 0 8 none 1 = .ok (.ok file) ∧ Wav.TellsRate file 8 := by
  intro source
  obtain ⟨-, tells⟩ := file_tells_rate source 0 8 none 1 (by decide) (by decide) fits_slowNote
  obtain ⟨frames, rendered⟩ : ∃ frames, render source 0 (wavConfig 8 none) 1 = .ok frames :=
    ⟨_, rfl⟩
  have few : frames.size ≤ 8 := size_render_le rendered
  obtain ⟨works, fits, -⟩ := tells frames rendered (by omega)
  obtain ⟨file, -, ways, told, -⟩ := fits (by omega)
  have gives := ways.resolve_right fun overflow => not_hasOverlong_slowNote overflow.2
  have ends : (checkedRenderWav source 0 8 none 1).isOk = true := by decide +kernel
  exact ⟨fits_slowNote, works, file, gives.eq_ok ends, told⟩

/-- Asked for at a rate of zero, the song is rendered at one frame a second, and its file says zero.
Asked for at 2^30 frames a second, it ends in an overflow even if there are no frames at all. -/
theorem rate_of_slowNote_untold :
    let source : SongSource := .ofArray #[slowNote]
    (RendersAt source 0 (wavConfig 0 none) 1 ∧
      ∃ frames file, render source 0 (wavConfig 0 none) 1 = .ok frames ∧ frames.size ≤ 1 ∧
        checkedRenderWav source 0 0 none 1 = .ok (.ok file) ∧
        little? file 4 24 = some 0 ∧ ¬ Wav.TellsRate file 1) ∧
    render source 0 (wavConfig (2 ^ 30) none) 0 = .ok #[] ∧
      checkedRenderWav source 0 (2 ^ 30) none 0 = .error .overflow := by
  intro source
  refine ⟨?_, ?_, ?_⟩
  · obtain ⟨frames, rendered⟩ : ∃ frames, render source 0 (wavConfig 0 none) 1 = .ok frames :=
      ⟨_, rfl⟩
    -- at a rate of 0 a second is one frame long
    have few : frames.size ≤ 1 := size_render_le rendered
    have fits : Wav.Fits frames 0 := Wav.fits_iff.mpr (by omega)
    obtain ⟨file, written, ways⟩ :=
      givesUnless_checkedRenderWav (by decide) (by decide) fits_slowNote rendered fits
    have gives := ways.cases.resolve_right fun overflow => not_hasOverlong_slowNote overflow.2
    have ends : (checkedRenderWav source 0 0 none 1).isOk = true := by decide +kernel
    refine ⟨rendersAt_of_render rendered, frames, file, rendered, few, gives.eq_ok ends,
      ((Wav.tellsRate_iff written).mpr rfl).1, ?_⟩
    rw [Wav.tellsRate_iff written]
    decide
  · obtain ⟨frames, rendered⟩ :
        ∃ frames, render source 0 (wavConfig (2 ^ 30) none) 0 = .ok frames := ⟨_, rfl⟩
    -- in no time at all there is nothing to render, so only the rate can overflow
    have none : frames.size = 0 := Nat.le_zero.mp (size_render_le rendered)
    rw [rendered, Array.eq_empty_of_size_eq_zero none]
  · decide +kernel

end Offline
end Chiptune
