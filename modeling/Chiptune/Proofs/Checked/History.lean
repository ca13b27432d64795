import Chiptune.Proofs.Checked.Sequencer

/-!
# Whole runs in words

A host can ask for anything in any order, and songs can be as malformed as they like. As long as
their numbers fit the words that they were read from and no recording has more than 2^32 levels,
every track stays in range at every moment, and a sequencer that calculates in words comes out where
one with plain numbers does (`Sequencer.runs_in_words`). It never traps, unless it plays for so long
that a counter runs full.

Recordings have to be that short. Their length is kept in 64 bits, and the place in a wave is the
product of that length and a phase of 32 bits. A longer wave is enough to make the product overflow
in its second frame (`Sequencer.overlong_wave_overflows`).
-/

namespace Chiptune

open Checked

/-! ## Two songs

One for what goes well, with a call that comes back and a note that ends in each round, and one that
is held to a wave of any length. -/

/-- A song that calls a note of four ticks again and again. -/
def Song.calledNote : Song where
  driver := .m4a
  bank := { programs := #[some (.single { source := .square .half })] }
  sources := [.ofBytes ⟨#[0xB3, 10, 0, 0, 0, 0xB2, 0, 0, 0, 0, 0xD3, 60, 100, 0x81, 0xB4]⟩]

theorem Song.fits_calledNote : Song.calledNote.Fits where
  initialTempo_lt := by decide
  bank :=
    { sample := fun h => by simp [Bank.sample?, Song.calledNote] at h
      instrument := fun {id p key i} hp hi => by
        cases id with
        | zero =>
          cases hp
          cases hi
          exact ⟨by decide, fun key e => by cases e⟩
        | succ id => simp [Bank.program?, Song.calledNote] at hp }
  source source mem := by
    cases List.mem_singleton.mp mem
    exact ⟨by decide, by decide⟩

/-- A song that holds one high key, played by a wave of `size` levels. -/
def Song.heldWave (size : Nat) : Song where
  driver := .m4a
  bank :=
    { samples := #[{ data := .pcm8 ⟨Array.replicate size 0⟩ }]
      programs := #[some (.single { source := .wave 0 })] }
  sources := [.ofBytes ⟨#[0xCF, 127, 127, 0xB0, 0xB1]⟩]

theorem Song.fits_heldWave {size : Nat} (h : size ≤ 2 ^ 47) : (heldWave size).Fits where
  initialTempo_lt := (by decide : SoundDriver.m4a.profile.defaultTempo < 2 ^ 16)
  bank :=
    { sample := fun {i s} found => by
        cases i with
        | zero =>
          cases found
          exact ⟨Nat.le_trans (Nat.le_of_eq Array.size_replicate) h, (by decide : 13379 < 2 ^ 32)⟩
        | succ i => simp [Bank.sample?, heldWave] at found
      instrument := fun {id p key i} hp hi => by
        cases id with
        | zero =>
          cases hp
          cases hi
          exact ⟨by decide, fun key e => by cases e⟩
        | succ id => simp [Bank.program?, heldWave] at hp }
  source source mem := by
    cases List.mem_singleton.mp mem
    exact ⟨by decide, by decide⟩

/-! ## Tracks in range

What is promised of every track, spelled out. The invariant `Track.Fits` says the same and more. -/

/-- The track is where a track of its driver can be, and so are the things that it keeps. -/
structure Track.InRange (driver : SoundDriver) (t : Track) : Prop where
  /-- In the stream, right behind it, or at a start that is further behind. -/
  cursor : t.head.cursor ≤ t.source.stream.bytes.size ∨
    (t.source.stream.bytes.size < t.source.start ∧ t.head.cursor = t.source.start)
  /-- No more is open than the driver can keep. -/
  depth : t.head.nestings.length ≤ driver.profile.nestingDepth
  /-- All places to come back to are in the stream. -/
  nesting : ∀ n ∈ t.head.nestings, n.Within t.source.stream.bytes.size
  notes : t.notes.length ≤ 16
  /-- What is counted down has not come to zero. -/
  timed : ∀ n ∈ t.notes, ∀ ticks, n.remaining = some ticks → 1 ≤ ticks
  /-- The count of a repeat has a byte. -/
  reached : t.head.reached ≤ 254
  volume : t.head.controls.volume ≤ 127
  expression : t.head.controls.expression ≤ 127
  pan : -64 ≤ t.head.controls.pan ∧ t.head.controls.pan ≤ 63

theorem Track.Fits.inRange {driver : SoundDriver} {t : Track} (f : t.Fits driver) :
    t.InRange driver where
  cursor := f.head.cursor
  depth := Nat.le_trans f.head.depth (Nat.min_le_left _ _)
  nesting := f.head.nesting
  notes := f.length_le
  timed := f.timed
  reached := f.head.reached_le
  volume := f.head.controls.volume_le
  expression := f.head.controls.expression_le
  pan := f.head.controls.pan_bounds

namespace Sequencer

variable {s : Sequencer} {config : Config} {requests : List Request}

/-! ## Requests in words

Requests are answered in words one after the other. The invariant of a sequencer is kept by each of
them, and so is that its bank is short, which only loading can change. -/

/-- Do in words what was asked. The other requests calculate nothing. -/
def checkedAnswer (s : Sequencer) : Request → Checked Sequencer
  | .load song => s.checkedLoad song
  | .play => s.checkedPlay
  | .seek target => s.checkedSeek target
  | .render count => do
    let (_, s) ← s.checkedRenderOnto count #[]
    return s
  | r => return s.answer r

/-- Do in words all that was asked of a new sequencer. -/
def checkedAfter (config : Config) (requests : List Request) : Checked Sequencer := do
  let _ ← (empty config).checkedEnvelopePeriod
  requests.foldlM checkedAnswer (empty config)

namespace Fits

/-- Nothing that a host asks for, except to load a song, can lead out of range, and a song that
fits cannot either. -/
theorem answer {r : Request} (f : s.Fits) (h : ∀ song, r = .load song → song.Fits) :
    (s.answer r).Fits := by
  by_cases loads : ∃ song, r = .load song
  · obtain ⟨song, rfl⟩ := loads
    rw [answer_load]
    split
    · exact f.withSong (h song rfl)
    · exact f
  · exact f.moves (moves_answer fun song e => loads ⟨song, e⟩)

theorem after (f : s.Fits) (h : ∀ song, Request.load song ∈ requests → song.Fits) :
    (s.after requests).Fits := by
  induction requests generalizing s with
  | nil => exact f
  | cons r requests ih =>
    refine ih (f.answer fun song e => h song (e ▸ List.mem_cons_self)) ?_
    exact fun song mem => h song (List.mem_cons_of_mem r mem)

end Fits

/-- The bank in use is that of a song that was loaded. -/
theorem short_answer {r : Request} (short : s.bank.Short)
    (h : ∀ song, r = .load song → song.bank.Short) : (s.answer r).bank.Short := by
  by_cases loads : ∃ song, r = .load song
  · obtain ⟨song, rfl⟩ := loads
    rw [answer_load]
    split
    · exact h song rfl
    · exact short
  · rw [bank_of_moves (moves_answer fun song e => loads ⟨song, e⟩)]
    exact short

theorem gives_checkedAnswer {r : Request} (f : s.Fits) (short : s.bank.Short)
    (h : ∀ song, r = .load song → song.Fits) : Gives (s.checkedAnswer r) (s.answer r) := by
  cases r with
  | load song => exact .of_eq (checkedLoad_eq f (h song rfl))
  | play => exact .of_eq (checkedPlay_eq f)
  | seek target => exact gives_checkedSeek target f
  | render count =>
    have sounds := answers_checkedRenderOnto count #[] f
    rw [renderOnto?_of_short short] at sounds
    exact sounds.gives.bind (.ok _)
  | _ => exact .ok _

theorem gives_checkedAnswers (f : s.Fits) (short : s.bank.Short)
    (h : ∀ song, Request.load song ∈ requests → song.Fits ∧ song.bank.Short) :
    Gives (requests.foldlM checkedAnswer s) (s.after requests) := by
  induction requests generalizing s with
  | nil => exact .ok _
  | cons r requests ih =>
    have first : ∀ song, r = .load song → song.Fits ∧ song.bank.Short :=
      fun song e => h song (e ▸ List.mem_cons_self)
    have fits := fun song e => (first song e).1
    rw [List.foldlM_cons]
    refine (gives_checkedAnswer f short fits).bind ?_
    refine ih (f.answer fits) (short_answer short fun song e => (first song e).2) ?_
    exact fun song mem => h song (List.mem_cons_of_mem r mem)

/-- Whatever a host asks for and whatever the songs contain: at every moment every track is in
range. And if no recording has more than 2^32 levels, a sequencer that calculates in words does not
trap, unless a counter runs full, and comes out right. -/
theorem runs_in_words (hconfig : config.Fits)
    (hsongs : ∀ song, Request.load song ∈ requests → song.Fits) :
    (∀ s, IsMoment config requests s → ∀ t ∈ s.tracks, t.InRange s.driver) ∧
      ((∀ song, Request.load song ∈ requests → song.bank.Short) →
        Gives (checkedAfter config requests) ((empty config).after requests)) := by
  have start := fits_empty hconfig
  constructor
  · intro s moment t ht
    exact (((start.after hsongs).moves moment.moves).track t ht).inRange
  · intro short
    unfold checkedAfter
    rw [checkedEnvelopePeriod_eq start, ok_bind]
    refine gives_checkedAnswers start (Bank.short_of_no_samples rfl) fun song mem => ?_
    exact ⟨hsongs song mem, short song mem⟩

theorem runs_in_words_calledNote :
    let requests : List Request := [.load .calledNote, .play, .render 8]
    let s := (empty { sampleRate := 100 }).after requests
    s.tracks.map (fun t => (t.head.nestings, t.notes.map Note.remaining)) =
        [([.call 5 10 (some 1)], [some 1, some 2, some 3, some 4])] ∧
      (∀ t ∈ s.tracks, t.InRange s.driver) ∧
      checkedAfter { sampleRate := 100 } requests = .ok s := by
  intro requests s
  have hsongs : ∀ song, Request.load song ∈ requests → song.Fits := by
    intro song mem
    have same : song = .calledNote := by simpa [requests] using mem
    exact same ▸ Song.fits_calledNote
  have short : ∀ song, Request.load song ∈ requests → song.bank.Short := by
    intro song mem
    have same : song = .calledNote := by simpa [requests] using mem
    exact same ▸ Bank.short_of_no_samples rfl
  have hconfig : ({ sampleRate := 100 } : Config).Fits := ⟨by decide, by decide⟩
  obtain ⟨inRange, gives⟩ := runs_in_words hconfig hsongs
  have gives := gives short
  -- no counter runs full in so short a run, so the result is there
  have ends : (checkedAfter { sampleRate := 100 } requests).isOk = true := by decide +kernel
  exact ⟨by decide +kernel, inRange s .done, gives.eq_ok ends⟩

/-! ## A wave that is too long

A few thousand levels more than 2^32 are enough. The song is loaded and played, its first frame is
sounded, and in the second one the phase is so far on that its product with the length does not fit
64 bits any more. -/

theorem checkedAnswer_load {song : Song} (f : s.Fits) (h : song.Fits) :
    s.checkedAnswer (.load song) = .ok (s.answer (.load song)) :=
  checkedLoad_eq f h

theorem checkedAnswer_play (f : s.Fits) : s.checkedAnswer .play = .ok (s.answer .play) :=
  checkedPlay_eq f

theorem checkedAnswer_render_overflow {s' : Sequencer} {frame : Frame}
    (first : s.checkedNextFrame = .ok (frame, s'))
    (second : s'.checkedNextFrame = .error .overflow) :
    s.checkedAnswer (.render 2) = .error .overflow := by
  rw [checkedAnswer, checkedRenderOnto, first, ok_bind]
  dsimp only
  rw [checkedRenderOnto, second]
  rfl

/-- In a wave that is a little longer, the place of the second frame is beyond 64 bits. -/
theorem overlong_wave_overflows :
    let song := Song.heldWave (2 ^ 32 + 2 ^ 12)
    let config : Config := { sampleRate := 8000 }
    song.Fits ∧ config.Fits ∧
      checkedAfter config [.load song, .play, .render 2] = .error .overflow := by
  intro song config
  have fits : song.Fits := Song.fits_heldWave (by decide)
  have hconfig : config.Fits := ⟨by decide, by decide⟩
  refine ⟨fits, hconfig, ?_⟩
  let played := ((empty config).answer (.load song)).answer .play
  have start := fits_empty hconfig
  have loaded : ((empty config).answer (.load song)).Fits :=
    start.answer fun other e => Request.load.inj e ▸ fits
  have started : played.Fits := loaded.answer (r := .play) fun other e => by cases e
  -- the first tick starts the voice
  let first := played.passDueTicks
  have ticked : first.Fits := started.moves (moves_passTicks _ played)
  have tick : played.checkedPassDueTicks = .ok first :=
    (gives_checkedPassDueTicks started).eq_ok (by decide +kernel)
  have voices : first.pool.voices.map (fun v => (v.generator, v.playing)) =
      [(.wave 0 { increment := 4294967295 }, true)] := by
    decide +kernel
  have now : played.transport = .playing ∧ first.transport = .playing ∧
      first.account < first.tickPrice ∧ first.envelopeFrames + 1 < first.envelopePeriod := by
    decide +kernel
  have bank : first.bank = song.bank := bank_of_moves (moves_passTicks _ played)
  obtain ⟨v, single, sounding⟩ := List.map_eq_singleton_iff.mp voices
  obtain ⟨generator, plays⟩ := Prod.mk.inj sounding
  -- the first place is zero whatever the length
  have place : first.pool.PlacesFit first.bank := by
    intro u mem _
    rw [single, List.mem_singleton] at mem
    rw [mem, generator, bank, Generator.placeFits_wave rfl]
    simp [Oscillator.PlaceFits]
  have frame : played.checkedNextFrame = .ok first.soundFrame := by
    rw [checkedNextFrame_of_ticked now.1 tick now.2.1, checkedSoundFrame_eq ticked now.2.2.1 place]
  -- no tick is due before the second frame, and the phase is at its greatest
  let second := first.soundFrame.2
  have later : second.transport = .playing ∧ second.account < second.tickPrice := by
    decide +kernel
  have long : ¬ second.pool.PlacesFit second.bank := by
    intro all
    have moved : second.bank = song.bank := (bank_of_moves (.single (.sound first))).trans bank
    have mem : v.advance first.bank ∈ second.pool.voices := by
      rw [voices_soundFrame now.2.2.2, single]
      exact List.mem_singleton_self _
    obtain ⟨wave, found, size⟩ : ∃ s, song.bank.sample? 0 = some s ∧ s.size = 2 ^ 32 + 2 ^ 12 :=
      ⟨_, rfl, Array.size_replicate⟩
    have fit := (Voice.placeFits_advance_wave plays generator (bank ▸ found) (by omega)).mp
      (by simpa only [moved, bank] using all _ mem)
    have phase : ({ increment := 4294967295 } : Oscillator).advance.phase.toNat = 4294967295 := rfl
    rw [Oscillator.PlaceFits, phase, size] at fit
    omega
  have next : second.checkedNextFrame = .error .overflow := by
    have sounded : second.Fits := ticked.soundFrame
    have undue := checkedPassDueTicks_of_lt sounded later.2
    rw [checkedNextFrame_of_ticked later.1 undue later.1, checkedSoundFrame_overflow sounded long]
  rw [checkedAfter, checkedEnvelopePeriod_eq start, ok_bind, List.foldlM_cons,
    checkedAnswer_load start fits, ok_bind, List.foldlM_cons, checkedAnswer_play loaded, ok_bind,
    List.foldlM_cons, checkedAnswer_render_overflow frame next]
  rfl

end Sequencer
end Chiptune
