import Chiptune.Proofs.Track.Tick
import Chiptune.Sequencer.Render
import Mathlib.Data.List.Induction
import Mathlib.Logic.Function.Iterate
import Mathlib.Logic.Relation

/-!
# Histories of a sequencer

A host drives a sequencer by `Request`s, and `Sequencer.after` is where a list of them leads. Ticks
pass inside a request, many of them in one `render` or `seek`, so a run has more moments than the
ends of its requests: `Sequencer.ticksIn` lists the states right after each tick, and `IsMoment`
takes both kinds together.

What holds at every moment is proved once and for all by looking at `Move`s. A request other than
`load` is a sequence of moves (`moves_answer`, `moves_ticksIn`), so a property that an empty
sequencer has, that loading gives and that moves keep holds throughout
(`Sequencer.IsMoment.invariant`).
-/

namespace Chiptune

/-- What the host can ask of a sequencer. -/
inductive Request
  | load (song : Song)
  | play
  | pause (policy : PausePolicy)
  | stop
  | seek (target : Nat)
  | setVolume (volume : MasterVolume)
  | setTrackMuted (track : Nat) (muted : Bool)
  | popNotice
  | drainNotices
  | render (count : Nat)

/-- The song has as many tracks as a sequencer takes. -/
def Song.IsPlayable (song : Song) : Prop := song.sources ≠ [] ∧ song.sources.length ≤ maxTracks

instance (song : Song) : Decidable song.IsPlayable := inferInstanceAs (Decidable (_ ∧ _))

namespace Sequencer

variable {s s' : Sequencer} {config : Config} {requests : List Request} {song : Song}

/-! ## Requests

The answer to a request is a new sequencer. What the host gets to hear and to see of it is left to
later files. -/

/-- The sequencer after it has done what was asked. A song that is refused changes nothing. -/
def answer (s : Sequencer) : Request → Sequencer
  | .load song =>
    match s.load song with
    | .ok s' => s'
    | .error _ => s
  | .play => s.play
  | .pause policy => s.pause policy
  | .stop => s.stop
  | .seek target => s.seek target
  | .setVolume volume => s.setVolume volume
  | .setTrackMuted track muted => (s.setTrackMuted track muted).2
  | .popNotice => s.popNotice.2
  | .drainNotices => s.drainNotices.2
  | .render count => (s.render count).2

/-- The sequencer after it has done all that was asked. -/
def after (s : Sequencer) (requests : List Request) : Sequencer := requests.foldl answer s

@[simp] theorem after_nil : s.after [] = s := rfl

@[simp] theorem after_cons (r : Request) : s.after (r :: requests) = (s.answer r).after requests :=
  rfl

theorem after_append (later : List Request) :
    s.after (requests ++ later) = (s.after requests).after later :=
  List.foldl_append

/-- The last request is answered by what the others have left. -/
theorem after_concat (r : Request) :
    s.after (requests ++ [r]) = (s.after requests).answer r :=
  after_append [r]

/-- What `f` gives for each of some requests, one after the other. -/
def along {α : Type} (f : Sequencer → Request → List α) : Sequencer → List Request → List α
  | _, [] => []
  | s, r :: requests => f s r ++ along f (s.answer r) requests

/-- Frames are rendered one after the other. -/
theorem renderOnto_snd (count : Nat) (frames : Array Frame) (s : Sequencer) :
    (s.renderOnto count frames).2 = (fun s : Sequencer => s.nextFrame.2)^[count] s := by
  induction count generalizing frames s with
  | zero => rfl
  | succ count ih => rw [renderOnto, ih, Function.iterate_succ_apply]

/-- To render is to pass frames. What they sound like is left out here. -/
theorem answer_render (count : Nat) :
    s.answer (.render count) = (fun s : Sequencer => s.nextFrame.2)^[count] s :=
  renderOnto_snd count #[] s

/-- A frame moves the voices on, pays for the next tick and counts, and that is all. -/
theorem soundFrame_snd (s : Sequencer) :
    ∃ (pool : VoicePool) (envelopeFrames : Nat),
      s.soundFrame.2 = { s with pool, account := s.account + s.frameIncome, envelopeFrames } ∧
      (pool = s.pool.advance s.bank ∨
        pool = (s.pool.advance s.bank).stepEnvelopes.reapFinished) := by
  simp only [soundFrame, countEnvelopeFrame]
  split
  · exact ⟨_, _, rfl, Or.inl rfl⟩
  · exact ⟨_, _, rfl, Or.inr rfl⟩

/-! ## The ticks inside a request

A tick has an effect of its own, and most properties have to hold right behind it and not only at
the end of a request. So the states behind ticks are listed, with the same recursion as the
requests. -/

/-- The states right after each tick of `passTicks`. -/
def ticksInPass : (count : Nat) → Sequencer → List Sequencer
  | 0, _ => []
  | count + 1, s =>
    let s := { s with account := s.account - s.tickPrice }.runTick true
    s :: if s.transport = .playing then ticksInPass count s else []

/-- The states right after each tick of a frame. -/
def ticksInFrame (s : Sequencer) : List Sequencer :=
  if s.transport = .playing then s.ticksInPass (s.account / s.tickPrice) else []

/-- The states right after each tick of the next `count` frames. -/
def ticksInFrames : (count : Nat) → Sequencer → List Sequencer
  | 0, _ => []
  | count + 1, s => s.ticksInFrame ++ ticksInFrames count s.nextFrame.2

/-- The states right after each tick of `replay`, before the voices are cut. -/
def ticksInReplay : (ticks : Nat) → Sequencer → List Sequencer
  | 0, _ => []
  | ticks + 1, s =>
    if s.transport = .playing then
      s.runTick false :: ticksInReplay ticks (s.runTick false).cutVoices
    else []

/-- The states right after each tick that passes while the sequencer does what was asked. -/
def ticksIn (s : Sequencer) : Request → List Sequencer
  | .seek target =>
    { s.rewind with transport := .playing }.ticksInReplay (min target s.config.maxSeekTicks)
  | .render count => s.ticksInFrames count
  | _ => []

/-- A moment in the run of a new sequencer: when it has done all that was asked, or right after a
tick while it does one thing more. -/
inductive IsMoment (config : Config) (requests : List Request) : Sequencer → Prop
  /-- All requests have been answered. -/
  | done : IsMoment config requests ((empty config).after requests)
  /-- A tick of the next request has just passed. -/
  | tick {r : Request} {s : Sequencer} (h : s ∈ ((empty config).after requests).ticksIn r) :
      IsMoment config requests s

/-! ## Moves

A request may be long, but it is made of few kinds of steps. What is to be shown of every run is
shown of these, and of loading a song. -/

/-- One step inside a loaded song. All that a host can ask for, another song apart, comes down to
these. -/
inductive Move : Sequencer → Sequencer → Prop
  | rewind (s : Sequencer) : Move s s.rewind
  | tick (announce : Bool) (s : Sequencer) : Move s (s.runTick announce)
  | cut (s : Sequencer) : Move s s.cutVoices
  | sound (s : Sequencer) : Move s s.soundFrame.2
  | mute (i : Nat) (muted : Bool) (s : Sequencer) : Move s (s.setTrackMuted i muted).2
  /-- Set what no track and no voice looks at. -/
  | adjust (s : Sequencer) (transport : Transport) (account : Nat) (volume : MasterVolume)
      (notices : Notices) : Move s { s with transport, account, volume, notices }

/-- Some moves, one after the other. -/
abbrev Moves : Sequencer → Sequencer → Prop := Relation.ReflTransGen Move

/-- To pay for a tick is an adjustment, and then the tick is a move. -/
theorem moves_passTicks (count : Nat) (s : Sequencer) : Moves s (s.passTicks count) := by
  induction count generalizing s with
  | zero => exact .refl
  | succ count ih =>
    have paid : Move s { s with account := s.account - s.tickPrice } :=
      .adjust s s.transport _ s.volume s.notices
    have ticked := (Relation.ReflTransGen.single paid).tail (.tick true _)
    rw [passTicks]
    split
    · exact ticked.trans (ih _)
    · exact ticked

/-- A frame: the ticks that are due, and then the sound. -/
theorem moves_nextFrame (s : Sequencer) : Moves s s.nextFrame.2 := by
  unfold nextFrame
  split
  · have ticked : Moves s s.passDueTicks := moves_passTicks _ s
    dsimp only
    split
    · exact ticked.tail (.sound _)
    · exact ticked
  · exact .refl

theorem moves_frames (count : Nat) (s : Sequencer) :
    Moves s ((fun s : Sequencer => s.nextFrame.2)^[count] s) := by
  induction count generalizing s with
  | zero => exact .refl
  | succ count ih => exact (moves_nextFrame s).trans (ih _)

/-- A seek cuts the voices after each tick. -/
theorem moves_replay (ticks : Nat) (s : Sequencer) : Moves s (s.replay ticks) := by
  induction ticks generalizing s with
  | zero => exact .refl
  | succ ticks ih =>
    rw [replay]
    split
    · exact ((Relation.ReflTransGen.single (.tick false s)).tail (.cut _)).trans (ih _)
    · exact .refl

theorem moves_rewind_playing (s : Sequencer) :
    Moves s { s.rewind with transport := .playing } :=
  (Relation.ReflTransGen.single (.rewind s)).tail
    (.adjust s.rewind .playing s.rewind.account s.rewind.volume s.rewind.notices)

/-- To begin again is a rewind and an adjustment. -/
theorem moves_play (s : Sequencer) : Moves s s.play := by
  unfold play
  split
  · exact .refl
  · exact .single (.adjust s .playing s.account s.volume s.notices)
  · split
    · exact .refl
    · dsimp only
      split
      · exact (Relation.ReflTransGen.single (.rewind s)).tail
          (.adjust s.rewind .playing _ s.rewind.volume s.rewind.notices)
      · exact .single (.adjust s .playing _ s.volume s.notices)

/-- A pause cuts the voices or lets them wait. -/
theorem moves_pause (policy : PausePolicy) (s : Sequencer) : Moves s (s.pause policy) := by
  have held : Moves s { s with transport := .paused } :=
    .single (.adjust s .paused s.account s.volume s.notices)
  unfold pause
  split
  · cases policy with
    | sustain => exact held
    | cut => exact held.tail (.cut _)
  · exact .refl

/-- A seek begins with a rewind and ends with an adjustment. -/
theorem moves_seek (target : Nat) (s : Sequencer) : Moves s (s.seek target) := by
  have played := (moves_rewind_playing s).trans
    (moves_replay (min target s.config.maxSeekTicks) { s.rewind with transport := .playing })
  exact played.tail (.adjust _ _ _ _ _)

/-- Whatever the host asks for, except to load a song, is done by moves. -/
theorem moves_answer {r : Request} (h : ∀ song, r ≠ .load song) : Moves s (s.answer r) := by
  cases r with
  | load song => exact absurd rfl (h song)
  | play => exact moves_play s
  | pause policy => exact moves_pause policy s
  | stop =>
    exact (Relation.ReflTransGen.single
      (.adjust s .stopped s.account s.volume s.notices)).tail (.rewind _)
  | seek target => exact moves_seek target s
  | setVolume volume => exact .single (.adjust s s.transport s.account volume s.notices)
  | setTrackMuted track muted => exact .single (.mute track muted s)
  | popNotice => exact .single (.adjust s s.transport s.account s.volume s.notices.pop.2)
  | drainNotices => exact .single (.adjust s s.transport s.account s.volume {})
  | render count =>
    rw [answer_render]
    exact moves_frames count s

/-- The states in the midst of a frame are reached by moves, too. -/
theorem moves_ticksInPass {count : Nat} (h : s' ∈ s.ticksInPass count) : Moves s s' := by
  induction count generalizing s with
  | zero => cases h
  | succ count ih =>
    have paid : Move s { s with account := s.account - s.tickPrice } :=
      .adjust s s.transport _ s.volume s.notices
    have ticked := (Relation.ReflTransGen.single paid).tail (.tick true _)
    rw [ticksInPass] at h
    rcases List.mem_cons.mp h with rfl | h
    · exact ticked
    · split at h
      · exact ticked.trans (ih h)
      · cases h

theorem moves_ticksInFrames {count : Nat} (h : s' ∈ s.ticksInFrames count) : Moves s s' := by
  induction count generalizing s with
  | zero => cases h
  | succ count ih =>
    rcases List.mem_append.mp h with h | h
    · unfold ticksInFrame at h
      split at h
      · exact moves_ticksInPass h
      · cases h
    · exact (moves_nextFrame s).trans (ih h)

theorem moves_ticksInReplay {ticks : Nat} (h : s' ∈ s.ticksInReplay ticks) : Moves s s' := by
  induction ticks generalizing s with
  | zero => cases h
  | succ ticks ih =>
    rw [ticksInReplay] at h
    split at h
    · have ticked := Relation.ReflTransGen.single (Move.tick false s)
      rcases List.mem_cons.mp h with rfl | h
      · exact ticked
      · exact (ticked.tail (.cut _)).trans (ih h)
    · cases h

/-- The ticks inside a request are reached by moves too. -/
theorem moves_ticksIn {r : Request} (h : s' ∈ s.ticksIn r) : Moves s s' := by
  cases r with
  | seek target => exact (moves_rewind_playing s).trans (moves_ticksInReplay h)
  | render count => exact moves_ticksInFrames h
  | _ => cases h

/-- A moment is reached by moves from where the last request was made. -/
theorem IsMoment.moves (h : IsMoment config requests s) :
    Moves ((empty config).after requests) s := by
  cases h with
  | done => exact .refl
  | tick h => exact moves_ticksIn h

/-! ## What holds at every moment

The two induction principles that all invariants of a sequencer go through: one for the states
between requests, one for the moments inside of them as well. -/

/-- The sequencer with another song, stopped at its start. -/
def withSong (s : Sequencer) (song : Song) : Sequencer :=
  { s with
    driver := song.driver
    songIndex := some song.index
    bank := song.bank
    tracks := song.sources.mapIdx (Track.atStart song.driver)
    pool := .empty song.driver.profile.maxVoices
    transport := .stopped
    initialTempo := max 1 song.initialTempo : Sequencer }.rewind

/-- A song is loaded exactly when it has a fitting number of tracks. -/
theorem load_eq_ok_iff : s.load song = .ok s' ↔ song.IsPlayable ∧ s' = s.withSong song := by
  unfold load Song.IsPlayable
  split
  · next none => simp [none]
  · next some =>
    split
    · next many => simp [Nat.not_le.mpr many]
    · next few =>
      simp only [Except.ok.injEq]
      exact ⟨fun e => ⟨⟨some, Nat.not_lt.mp few⟩, e ▸ rfl⟩, fun e => e.2 ▸ rfl⟩

/-- A song that cannot be played is refused, and nothing changes. -/
theorem answer_load (s : Sequencer) (song : Song) :
    s.answer (.load song) = if song.IsPlayable then s.withSong song else s := by
  rw [answer]
  split
  · next s' h =>
    obtain ⟨playable, rfl⟩ := load_eq_ok_iff.mp h
    rw [if_pos playable]
  · next h =>
    rw [if_neg]
    intro playable
    rw [load_eq_ok_iff.mpr ⟨playable, rfl⟩] at h
    cases h

variable {P : Sequencer → Prop}

/-- What every move keeps, moves keep. -/
theorem Moves.invariant (move : ∀ {s s'}, Move s s' → P s → P s') (h : Moves s s') :
    P s → P s' := by
  induction h with
  | refl => exact id
  | tail _ hmove ih => exact fun hs => move hmove (ih hs)

/-- What holds at the start and is kept by loading and by moves, holds after every list of requests.
-/
theorem invariant_after (start : P (.empty config)) (load : ∀ s song, P s → P (s.withSong song))
    (move : ∀ {s s'}, Move s s' → P s → P s') (requests : List Request) :
    P ((empty config).after requests) := by
  induction requests using List.reverseRecOn with
  | nil => exact start
  | append_singleton requests r ih =>
    rw [after_concat]
    -- a request either loads a song or is made of moves
    by_cases h : ∃ song, r = .load song
    · obtain ⟨song, rfl⟩ := h
      rw [answer_load]
      split
      · exact load _ _ ih
      · exact ih
    · exact Moves.invariant move (moves_answer fun song e => h ⟨song, e⟩) ih

/-- A property that holds before any song is loaded, that loading a song gives and that every move
keeps holds at every moment of every run. -/
theorem IsMoment.invariant (start : P (.empty config))
    (load : ∀ s song, P s → P (s.withSong song)) (move : ∀ {s s'}, Move s s' → P s → P s')
    (h : IsMoment config requests s) : P s :=
  h.moves.invariant move (invariant_after start load move requests)

end Sequencer
end Chiptune
