import Chiptune.Proofs.Sequencer.Notices

/-!
# Likenesses

Two sequencers may differ in ways that neither the time of the song nor the notifications depend on:
in serial numbers, say, or in what is muted. A `Likeness` is a relation that allows for such a
difference and for no other. What has to be shown of it concerns single tracks, the pool, and the
small parts that requests are made of; that alike sequencers stay alike whatever the host asks them
for (`Likeness.answer`), and that they tell it the same (`Likeness.noticesIn_eq`), follows for all
likenesses at once.
-/

namespace Chiptune.Sequencer

/-- Sequencers that are alike keep one time, pay from one account and tell the same, and each part
of what a host can ask for leaves them alike. -/
structure Likeness (R : Sequencer → Sequencer → Prop) : Prop where
  /-- Everything that decides about time and about the end. -/
  score_eq {s s' : Sequencer} : R s s' → s'.score = s.score
  config_eq {s s' : Sequencer} : R s s' → s'.config = s.config
  account_eq {s s' : Sequencer} : R s s' → s'.account = s.account
  /-- What the tracks tell in the next tick. -/
  noticesOfTracks_eq {s s' : Sequencer} : R s s' →
    s'.tracks.flatMap (Track.noticesInTick s'.setting) =
      s.tracks.flatMap (Track.noticesInTick s.setting)
  /-- From here on: what is done to both sides alike leaves them alike. -/
  setTransport {s s' : Sequencer} (transport : Transport) : R s s' →
    R { s with transport } { s' with transport }
  setAccount {s s' : Sequencer} (account : Nat) : R s s' → R { s with account } { s' with account }
  setSongLoops {s s' : Sequencer} (songLoops : Nat) : R s s' →
    R { s with songLoops } { s' with songLoops }
  notify {s s' : Sequencer} (n : Notification) : R s s' → R (s.notify n) (s'.notify n)
  cutVoices {s s' : Sequencer} : R s s' → R s.cutVoices s'.cutVoices
  rewind {s s' : Sequencer} : R s s' → R s.rewind s'.rewind
  tickAll {s s' : Sequencer} : R s s' → R s.tickAll s'.tickAll
  restarted {s s' : Sequencer} : R s s' →
    R { s with tracks := s.tracks.map Track.restarted }
      { s' with tracks := s'.tracks.map Track.restarted }
  soundFrame {s s' : Sequencer} : R s s' → R s.soundFrame.2 s'.soundFrame.2
  withSong {s s' : Sequencer} (song : Song) : R s s' → R (s.withSong song) (s'.withSong song)
  setVolume {s s' : Sequencer} (volume : MasterVolume) : R s s' →
    R (s.setVolume volume) (s'.setVolume volume)
  setTrackMuted {s s' : Sequencer} (i : Nat) (muted : Bool) : R s s' →
    R (s.setTrackMuted i muted).2 (s'.setTrackMuted i muted).2
  popNotice {s s' : Sequencer} : R s s' → R s.popNotice.2 s'.popNotice.2
  drainNotices {s s' : Sequencer} : R s s' → R s.drainNotices.2 s'.drainNotices.2

namespace Likeness

variable {R : Sequencer → Sequencer → Prop} {s s' : Sequencer}

/-! ## What alike sequencers share

Everything that decides how long to play and when to stop is in the score and in the account. -/

theorem transport_eq (L : Likeness R) (h : R s s') : s'.transport = s.transport :=
  congrArg Score.transport (L.score_eq h)

theorem songLoops_eq (L : Likeness R) (h : R s s') : s'.songLoops = s.songLoops :=
  congrArg Score.songLoops (L.score_eq h)

/-- They pay the same for a tick. -/
theorem tickPrice_eq (L : Likeness R) (h : R s s') : s'.tickPrice = s.tickPrice := by
  rw [tickPrice, tickPrice, L.config_eq h]

/-- They come to an end together. -/
theorem allFinished_iff (L : Likeness R) (h : R s s') : s'.AllFinished ↔ s.AllFinished := by
  rw [← allFinished_score, ← allFinished_score, L.score_eq h]

/-- They have a song or none. -/
theorem tracks_eq_nil_iff (L : Likeness R) (h : R s s') : s'.tracks = [] ↔ s.tracks = [] := by
  have hparts : s'.tracks.map Track.part = s.tracks.map Track.part :=
    congrArg Score.parts (L.score_eq h)
  rw [← List.map_eq_nil_iff (f := Track.part), hparts, List.map_eq_nil_iff]

/-! ## A tick

The decisions after a tick depend on the score. What they do is the same on both sides, so that only
the parts of a tick have to be assumed to keep the relation. -/

theorem endSong (L : Likeness R) (h : R s s') : R s.endSong s'.endSong :=
  L.notify .songEnded (L.setTransport .stopped (L.cutVoices h))

/-- The limit and the count are the same, so both go on or both end. -/
theorem checkLoopLimit (L : Likeness R) (h : R s s') : R s.checkLoopLimit s'.checkLoopLimit := by
  unfold Sequencer.checkLoopLimit
  rw [L.config_eq h, L.songLoops_eq h]
  cases s.config.loopLimit with
  | none => exact h
  | some limit =>
    dsimp only
    split
    · exact L.endSong h
    · exact h

/-- Whether a track goes back is seen in the score, which they share. -/
theorem wrapOrEnd (L : Likeness R) (h : R s s') : R s.wrapOrEnd s'.wrapOrEnd := by
  have hany : (s'.tracks.any fun t => t.restart?.isSome) =
      s.tracks.any fun t => t.restart?.isSome := by
    rw [← any_restart_score, ← any_restart_score, L.score_eq h]
  unfold Sequencer.wrapOrEnd
  rw [hany, L.songLoops_eq h]
  split
  · exact L.checkLoopLimit
      (L.notify (.loopWrapped (s.songLoops + 1))
        (L.setSongLoops (s.songLoops + 1) (L.restarted h)))
  · exact L.endSong h

/-- Counting how often all tracks have gone back keeps two sequencers alike. -/
theorem countLoops (L : Likeness R) (announce : Bool) (h : R s s') :
    R (s.countLoops announce) (s'.countLoops announce) := by
  have hcommon : s'.commonLoops = s.commonLoops := by
    rw [← commonLoops_score, ← commonLoops_score, L.score_eq h]
  unfold Sequencer.countLoops
  rw [hcommon, L.songLoops_eq h]
  dsimp only
  split
  · exact h
  · have counted := L.setSongLoops s.commonLoops h
    cases announce with
    | false => exact L.checkLoopLimit counted
    | true => exact L.checkLoopLimit (L.notify (.loopWrapped s.commonLoops) counted)

/-- A tick leaves alike sequencers alike. -/
theorem runTick (L : Likeness R) (announce : Bool) (h : R s s') :
    R (s.runTick announce) (s'.runTick announce) := by
  have ticked := L.tickAll h
  rw [runTick_eq, runTick_eq]
  simp only [L.allFinished_iff ticked]
  split
  · exact L.wrapOrEnd ticked
  · exact L.countLoops announce ticked

/-- Sequencers that are alike tell the same in a tick. -/
theorem noticesInTick_eq (L : Likeness R) (announce : Bool) (h : R s s') :
    s'.noticesInTick announce = s.noticesInTick announce := by
  rw [noticesInTick, noticesInTick, L.noticesOfTracks_eq h, L.score_eq h]

/-! ## Frames

A frame pays for ticks and then sounds. The induction is on the ticks that are due. -/

/-- Paying for a tick. -/
theorem paid (L : Likeness R) (h : R s s') :
    R { s with account := s.account - s.tickPrice }
      { s' with account := s'.account - s'.tickPrice } := by
  rw [L.account_eq h, L.tickPrice_eq h]
  exact L.setAccount _ h

/-- Both can pay for the same number of ticks, and both go on or both are over after each. -/
theorem passTicks (L : Likeness R) (count : Nat) (h : R s s') :
    R (s.passTicks count) (s'.passTicks count) := by
  induction count generalizing s s' with
  | zero => exact h
  | succ count ih =>
    have ticked := L.runTick true (L.paid h)
    rw [Sequencer.passTicks, Sequencer.passTicks, L.transport_eq ticked]
    split
    · exact ih ticked
    · exact ticked

theorem passDueTicks (L : Likeness R) (h : R s s') : R s.passDueTicks s'.passDueTicks := by
  unfold Sequencer.passDueTicks
  rw [L.account_eq h, L.tickPrice_eq h]
  exact L.passTicks _ h

/-- What they tell while they pass ticks is told in single ticks. -/
theorem noticesInPass_eq (L : Likeness R) (count : Nat) (h : R s s') :
    s'.noticesInPass count = s.noticesInPass count := by
  induction count generalizing s s' with
  | zero => rfl
  | succ count ih =>
    have ticked := L.runTick true (L.paid h)
    rw [noticesInPass, noticesInPass, L.noticesInTick_eq true (L.paid h), L.transport_eq ticked,
      ih ticked]

/-- A frame is sounded by both or by neither. -/
theorem nextFrame (L : Likeness R) (h : R s s') : R s.nextFrame.2 s'.nextFrame.2 := by
  have ticked := L.passDueTicks h
  unfold Sequencer.nextFrame
  rw [L.transport_eq h]
  split
  · dsimp only
    rw [L.transport_eq ticked]
    split
    · exact L.soundFrame ticked
    · exact ticked
  · exact h

theorem noticesInFrame_eq (L : Likeness R) (h : R s s') : s'.noticesInFrame = s.noticesInFrame := by
  unfold noticesInFrame
  rw [L.transport_eq h, L.account_eq h, L.tickPrice_eq h, L.noticesInPass_eq _ h]

theorem frames (L : Likeness R) (count : Nat) (h : R s s') :
    R ((fun s : Sequencer => s.nextFrame.2)^[count] s)
      ((fun s : Sequencer => s.nextFrame.2)^[count] s') := by
  induction count generalizing s s' with
  | zero => exact h
  | succ count ih => exact ih (L.nextFrame h)

/-- Frame after frame they tell the same. -/
theorem noticesInFrames_eq (L : Likeness R) (count : Nat) (h : R s s') :
    s'.noticesInFrames count = s.noticesInFrames count := by
  induction count generalizing s s' with
  | zero => rfl
  | succ count ih =>
    rw [noticesInFrames, noticesInFrames, L.noticesInFrame_eq h, ih (L.nextFrame h)]

/-! ## Controls

Transport controls look at the score and at the transport. -/

/-- Seeking, tick by tick. -/
theorem replay (L : Likeness R) (ticks : Nat) (h : R s s') :
    R (s.replay ticks) (s'.replay ticks) := by
  induction ticks generalizing s s' with
  | zero => exact h
  | succ ticks ih =>
    rw [Sequencer.replay, Sequencer.replay, L.transport_eq h]
    split
    · exact ih (L.cutVoices (L.runTick false h))
    · exact h

/-- What a seek tells is told in its ticks. -/
theorem noticesInReplay_eq (L : Likeness R) (ticks : Nat) (h : R s s') :
    s'.noticesInReplay ticks = s.noticesInReplay ticks := by
  induction ticks generalizing s s' with
  | zero => rfl
  | succ ticks ih =>
    rw [noticesInReplay, noticesInReplay, L.transport_eq h, L.noticesInTick_eq false h,
      ih (L.cutVoices (L.runTick false h))]

/-- Whether it begins, goes on or starts again depends on the score alone. -/
theorem play (L : Likeness R) (h : R s s') : R s.play s'.play := by
  have begun : ∀ {s s'}, R s s' →
      R { s with account := s.tickPrice, transport := .playing }
        { s' with account := s'.tickPrice, transport := .playing } := by
    intro s s' h
    rw [L.tickPrice_eq h]
    exact L.setTransport .playing (L.setAccount s.tickPrice h)
  unfold Sequencer.play
  rw [L.transport_eq h]
  cases s.transport with
  | playing => exact h
  | paused => exact L.setTransport .playing h
  | stopped =>
    simp only [L.tracks_eq_nil_iff h, L.allFinished_iff h]
    split
    · exact h
    · split
      · exact begun (L.rewind h)
      · exact begun h

/-- With both policies. -/
theorem pause (L : Likeness R) (policy : PausePolicy) (h : R s s') :
    R (s.pause policy) (s'.pause policy) := by
  have held := L.setTransport .paused h
  unfold Sequencer.pause
  rw [L.transport_eq h]
  split
  · cases policy with
    | sustain => exact held
    | cut => exact L.cutVoices held
  · exact h

theorem stop (L : Likeness R) (h : R s s') : R s.stop s'.stop :=
  L.rewind (L.setTransport .stopped h)

/-- Both replay as many ticks, and both get their transport back or neither does. -/
theorem seek (L : Likeness R) (target : Nat) (h : R s s') :
    R (s.seek target) (s'.seek target) := by
  have sought : R (s.sought target) (s'.sought target) := by
    unfold Sequencer.sought
    rw [L.config_eq h]
    exact L.replay _ (L.setTransport .playing (L.rewind h))
  rw [seek_eq, seek_eq, L.transport_eq h, L.transport_eq sought, L.tickPrice_eq sought]
  have arrived := L.setTransport
    (if (s.sought target).transport = .playing then s.transport else (s.sought target).transport)
    sought
  exact L.setAccount (s.sought target).tickPrice arrived

/-! ## Requests

Every request is one of these, or is assumed of the relation itself. -/

/-- Alike sequencers do what they are asked alike. -/
theorem answer (L : Likeness R) (r : Request) (h : R s s') : R (s.answer r) (s'.answer r) := by
  cases r with
  | load song =>
    rw [answer_load, answer_load]
    split
    · exact L.withSong song h
    · exact h
  | play => exact L.play h
  | pause policy => exact L.pause policy h
  | stop => exact L.stop h
  | seek target => exact L.seek target h
  | setVolume volume => exact L.setVolume volume h
  | setTrackMuted track muted => exact L.setTrackMuted track muted h
  | popNotice => exact L.popNotice h
  | drainNotices => exact L.drainNotices h
  | render count =>
    rw [answer_render, answer_render]
    exact L.frames count h

/-- Two sequencers stay alike over any number of requests. -/
theorem after (L : Likeness R) (requests : List Request) (h : R s s') :
    R (s.after requests) (s'.after requests) := by
  induction requests generalizing s s' with
  | nil => exact h
  | cons r requests ih => exact ih (L.answer r h)

/-- Alike sequencers tell the host the same, whatever it asks for. -/
theorem noticesIn_eq (L : Likeness R) (r : Request) (h : R s s') :
    s'.noticesIn r = s.noticesIn r := by
  cases r with
  | seek target =>
    show noticesInReplay _ _ = noticesInReplay _ _
    rw [L.config_eq h]
    exact L.noticesInReplay_eq _ (L.setTransport .playing (L.rewind h))
  | render count => exact L.noticesInFrames_eq count h
  | _ => rfl

/-- What alike sequencers give alike in every request, they give alike in many. -/
theorem along_eq (L : Likeness R) {α : Type} {f : Sequencer → Request → List α}
    (same : ∀ {s s'} (r : Request), R s s' → f s' r = f s r) (requests : List Request)
    (h : R s s') : along f s' requests = along f s requests := by
  induction requests generalizing s s' with
  | nil => rfl
  | cons r requests ih => rw [along, along, same r h, ih (L.answer r h)]

end Likeness
end Chiptune.Sequencer
