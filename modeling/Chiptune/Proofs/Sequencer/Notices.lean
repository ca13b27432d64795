import Chiptune.Proofs.Sequencer.Score
import Chiptune.Proofs.Track.Notices

/-!
# What a sequencer tells the host

Notifications wait in a queue that drops the oldest when it is full, so the queue does not show all
that a sequencer has ever told. `Sequencer.noticesIn` lists what is told while one request is
done, in order and without a bound, and `notices_answer` says that precisely this is added to
the queue.

In a tick, the tracks speak first. What the song says of itself after them, that it has gone round
or that it is over, depends on nothing but its score (`Score.turnNotices`).
-/

namespace Chiptune

/-- The request takes notifications out. -/
def Request.TakesNotices : Request → Prop
  | .popNotice => True
  | .drainNotices => True
  | _ => False

instance : DecidablePred Request.TakesNotices
  | .popNotice | .drainNotices => .isTrue trivial
  | .load _ | .play | .pause _ | .stop | .seek _ | .setVolume _ | .setTrackMuted _ _ | .render _ =>
    .isFalse id

namespace Score

/-- Word of the end, if the song has gone round as often as it may. -/
def limitNotices (c : Score) : List Notification :=
  match c.loopLimit with
  | some limit => if limit ≤ c.songLoops then [.songEnded] else []
  | none => []

/-- What the song says of itself when all tracks have passed a tick. -/
def notices (announce : Bool) (c : Score) : List Notification :=
  if c.AllFinished then
    if c.parts.any fun p => p.head.restart?.isSome then
      .loopWrapped (c.songLoops + 1) :: { c with songLoops := c.songLoops + 1 : Score }.limitNotices
    else [.songEnded]
  else if c.commonLoops ≤ c.songLoops then []
  else
    (if announce then [.loopWrapped c.commonLoops] else []) ++
      { c with songLoops := c.commonLoops : Score }.limitNotices

/-- What the song says of itself in its next tick. -/
def turnNotices (announce : Bool) (c : Score) : List Notification := c.tickAll.notices announce

end Score

namespace Sequencer

variable {s : Sequencer}

/-! ## A tick

Tracks speak first, each in its turn, and then the song. What they say is computed from the state
before the tick. -/

/-- What the host is told in the next tick. -/
def noticesInTick (announce : Bool) (s : Sequencer) : List Notification :=
  s.tracks.flatMap (Track.noticesInTick s.setting) ++ s.score.turnNotices announce

/-- Each track tells what it has to tell, in the order of the tracks. -/
theorem notices_tickTracks (env : Setting) (tracks : List Track) (stage : Stage) :
    (tickTracks env tracks stage).2.notices =
      stage.notices.pushAll (tracks.flatMap (Track.noticesInTick env)) := by
  induction tracks generalizing stage with
  | nil => rfl
  | cons t tracks ih =>
    rw [tickTracks, List.flatMap_cons, Notices.pushAll_append, ih, Track.notices_tick]

/-- The limit tells of the end if it is reached. -/
theorem notices_checkLoopLimit (s : Sequencer) :
    s.checkLoopLimit.notices = s.notices.pushAll s.score.limitNotices := by
  unfold checkLoopLimit Score.limitNotices
  rw [show s.score.loopLimit = s.config.loopLimit from rfl]
  cases s.config.loopLimit with
  | none => rfl
  | some limit =>
    show (if limit ≤ s.songLoops then s.endSong else s).notices =
      s.notices.pushAll (if limit ≤ s.songLoops then [.songEnded] else [])
    split <;> rfl

/-- A song whose tracks have all finished goes round and tells so, or tells that it is over. -/
theorem notices_wrapOrEnd (s : Sequencer) (finished : s.AllFinished) (announce : Bool) :
    s.wrapOrEnd.notices = s.notices.pushAll (s.score.notices announce) := by
  rw [Score.notices, if_pos (s.allFinished_score.mpr finished), any_restart_score]
  unfold wrapOrEnd
  split
  · rw [notices_checkLoopLimit, Notices.pushAll_cons]
    rfl
  · rfl

/-- A song that goes on tells of a loop if it has counted one and may announce it. -/
theorem notices_countLoops (s : Sequencer) (unfinished : ¬ s.AllFinished) (announce : Bool) :
    (s.countLoops announce).notices = s.notices.pushAll (s.score.notices announce) := by
  rw [Score.notices, if_neg (fun h => unfinished (s.allFinished_score.mp h)), commonLoops_score]
  show (s.countLoops announce).notices =
    s.notices.pushAll (if s.commonLoops ≤ s.songLoops then [] else _)
  unfold countLoops
  dsimp only
  split
  · rfl
  · rw [notices_checkLoopLimit, Notices.pushAll_append]
    cases announce <;> rfl

/-- A tick adds what it tells to what was told before. -/
theorem notices_runTick (announce : Bool) (s : Sequencer) :
    (s.runTick announce).notices = s.notices.pushAll (s.noticesInTick announce) := by
  have htracks : s.tickAll.notices =
      s.notices.pushAll (s.tracks.flatMap (Track.noticesInTick s.setting)) :=
    notices_tickTracks s.setting s.tracks s.stage
  rw [noticesInTick, Notices.pushAll_append, ← htracks, Score.turnNotices, ← score_tickAll,
    runTick_eq]
  split
  · next finished => exact notices_wrapOrEnd s.tickAll finished announce
  · next unfinished => exact notices_countLoops s.tickAll unfinished announce

/-! ## Requests

The notifications of a request are put together from those of its ticks, with the same recursion as
the request itself. -/

/-- What the host is told while `passTicks` passes its ticks. -/
def noticesInPass : (count : Nat) → Sequencer → List Notification
  | 0, _ => []
  | count + 1, s =>
    let s := { s with account := s.account - s.tickPrice }
    s.noticesInTick true ++
      if (s.runTick true).transport = .playing then noticesInPass count (s.runTick true) else []

/-- What the host is told in the next frame. -/
def noticesInFrame (s : Sequencer) : List Notification :=
  if s.transport = .playing then s.noticesInPass (s.account / s.tickPrice) else []

/-- What the host is told in the next `count` frames. -/
def noticesInFrames : (count : Nat) → Sequencer → List Notification
  | 0, _ => []
  | count + 1, s => s.noticesInFrame ++ noticesInFrames count s.nextFrame.2

/-- What the host is told while `replay` passes its ticks. -/
def noticesInReplay : (ticks : Nat) → Sequencer → List Notification
  | 0, _ => []
  | ticks + 1, s =>
    if s.transport = .playing then
      s.noticesInTick false ++ noticesInReplay ticks (s.runTick false).cutVoices
    else []

/-- What the host is told while the sequencer does what was asked. -/
def noticesIn (s : Sequencer) : Request → List Notification
  | .seek target =>
    { s.rewind with transport := .playing }.noticesInReplay (min target s.config.maxSeekTicks)
  | .render count => s.noticesInFrames count
  | _ => []

theorem notices_passTicks (count : Nat) (s : Sequencer) :
    (s.passTicks count).notices = s.notices.pushAll (s.noticesInPass count) := by
  induction count generalizing s with
  | zero => rfl
  | succ count ih =>
    have hpaid : ({ s with account := s.account - s.tickPrice } : Sequencer).notices = s.notices :=
      rfl
    rw [passTicks, noticesInPass, Notices.pushAll_append, ← hpaid, ← notices_runTick]
    dsimp only
    split
    · exact ih _
    · rfl

/-- A frame tells what its ticks tell. -/
theorem notices_nextFrame (s : Sequencer) :
    s.nextFrame.2.notices = s.notices.pushAll s.noticesInFrame := by
  unfold nextFrame noticesInFrame
  split
  · have hticks : s.passDueTicks.notices = _ := notices_passTicks (s.account / s.tickPrice) s
    rw [← hticks]
    dsimp only
    split
    · obtain ⟨pool, envelopeFrames, hsound, -⟩ := soundFrame_snd s.passDueTicks
      rw [hsound]
    · rfl
  · rfl

theorem notices_frames (count : Nat) (s : Sequencer) :
    ((fun s : Sequencer => s.nextFrame.2)^[count] s).notices =
      s.notices.pushAll (s.noticesInFrames count) := by
  induction count generalizing s with
  | zero => rfl
  | succ count ih =>
    rw [Function.iterate_succ_apply, ih, noticesInFrames, Notices.pushAll_append,
      notices_nextFrame]

theorem notices_replay (ticks : Nat) (s : Sequencer) :
    (s.replay ticks).notices = s.notices.pushAll (s.noticesInReplay ticks) := by
  induction ticks generalizing s with
  | zero => rfl
  | succ ticks ih =>
    rw [replay, noticesInReplay]
    split
    · have hcut : (s.runTick false).cutVoices.notices = (s.runTick false).notices := rfl
      rw [ih, hcut, notices_runTick, Notices.pushAll_append]
    · rfl

/-- A request that takes no notifications out adds what it tells, and changes nothing else about
them. -/
theorem notices_answer {r : Request} (leaves : ¬ r.TakesNotices) :
    (s.answer r).notices = s.notices.pushAll (s.noticesIn r) := by
  -- ticks push notices, and they happen in renderings and seeks only
  cases r with
  | load song =>
    rw [answer_load]
    split <;> rfl
  | play =>
    simp only [answer, play]
    split
    · rfl
    · rfl
    · split
      · rfl
      · dsimp only
        split <;> rfl
  | pause policy =>
    simp only [answer, pause]
    split
    · cases policy <;> rfl
    · rfl
  | stop => rfl
  | seek target => exact notices_replay _ _
  | setVolume volume => rfl
  | setTrackMuted track muted =>
    simp only [answer, setTrackMuted]
    split <;> rfl
  | popNotice => exact absurd trivial leaves
  | drainNotices => exact absurd trivial leaves
  | render count =>
    rw [answer_render]
    exact notices_frames count s

/-! ## Requests one after the other

As long as nobody takes notifications out, the queue has been given all of them in order. -/

/-- As long as nobody takes any out, the queue was given what each request told. -/
theorem notices_after {requests : List Request} (leave : ∀ r ∈ requests, ¬ r.TakesNotices) :
    (s.after requests).notices = s.notices.pushAll (along noticesIn s requests) := by
  induction requests generalizing s with
  | nil => rfl
  | cons r requests ih =>
    rw [after_cons, ih fun r hr => leave r (List.mem_cons_of_mem _ hr), along,
      Notices.pushAll_append, notices_answer (leave r List.mem_cons_self)]

end Sequencer
end Chiptune
