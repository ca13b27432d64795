import Chiptune.Proofs.Sequencer.Notices

/-!
# The course of a run

A run is seen here as a list of events: the song is taken back to its start, or it passes a tick
(`Sequencer.eventsIn`). All that the host is told belongs to events (`along_noticesIn_eq_told`).
Between two events are moves that leave the score as it is (`Sequencer.Quiet`), so every run has a
`Sequencer.Course` along its events (`course_after`), and nothing but these events changes the count
of loops (`Course.counts`).
-/

namespace Chiptune.Sequencer

variable {s s' t : Sequencer}

/-! ## The events of a run

Requests are taken apart into the events that matter for a count: ticks, and returns to the start.
All else in a request is between two events. -/

/-- A tick of a run: the state in which it begins, and whether a loop by jumps is announced. -/
structure Step where
  before : Sequencer
  announce : Bool

namespace Step

/-- The state right after the tick. -/
def after (b : Step) : Sequencer := b.before.runTick b.announce

/-- What the host is told in the tick. -/
def told (b : Step) : List Notification := b.before.noticesInTick b.announce

end Step

/-- What can change the count of loops: the song is taken back to its start, or it passes a
tick. -/
inductive Event
  /-- The song is taken back to its start, or another one is loaded. -/
  | rewind
  /-- A tick passes. -/
  | step (b : Step)

/-- What the host is told in an event. -/
def Event.told : Event → List Notification
  | rewind => []
  | step b => b.told

/-- The ticks of `passTicks`. -/
def stepsInPass : (count : Nat) → Sequencer → List Step
  | 0, _ => []
  | count + 1, s =>
    let b : Step := ⟨{ s with account := s.account - s.tickPrice }, true⟩
    b :: if b.after.transport = .playing then stepsInPass count b.after else []

/-- The ticks of a frame. -/
def stepsInFrame (s : Sequencer) : List Step :=
  if s.transport = .playing then s.stepsInPass (s.account / s.tickPrice) else []

/-- The ticks of the next `count` frames. -/
def stepsInFrames : (count : Nat) → Sequencer → List Step
  | 0, _ => []
  | count + 1, s => s.stepsInFrame ++ stepsInFrames count s.nextFrame.2

/-- The ticks of `replay`. -/
def stepsInReplay : (ticks : Nat) → Sequencer → List Step
  | 0, _ => []
  | ticks + 1, s =>
    if s.transport = .playing then
      ⟨s, false⟩ :: stepsInReplay ticks (s.runTick false).cutVoices
    else []

/-- The events that take place while the sequencer does what was asked. -/
def eventsIn (s : Sequencer) : Request → List Event
  | .load song => if song.IsPlayable then [.rewind] else []
  | .play => if s.transport = .stopped ∧ s.tracks ≠ [] ∧ s.AllFinished then [.rewind] else []
  | .stop => [.rewind]
  | .seek target =>
    .rewind :: ({ s.rewind with transport := .playing }.stepsInReplay
      (min target s.config.maxSeekTicks)).map .step
  | .render count => (s.stepsInFrames count).map .step
  | _ => []

/-! ### All that the host is told belongs to events

Nothing is told between events, so that the notifications of a request are those of its events in
their order. -/

/-- Nothing is told between the ticks of a frame. -/
theorem noticesInPass_eq_told (count : Nat) (s : Sequencer) :
    s.noticesInPass count = (s.stepsInPass count).flatMap Step.told := by
  induction count generalizing s with
  | zero => rfl
  | succ count ih =>
    let b : Step := ⟨{ s with account := s.account - s.tickPrice }, true⟩
    show b.told ++ (if b.after.transport = .playing then b.after.noticesInPass count else []) =
      (b :: if b.after.transport = .playing then b.after.stepsInPass count else []).flatMap
        Step.told
    rw [List.flatMap_cons]
    split
    · rw [ih]
    · rfl

/-- Between two frames nothing is told. -/
theorem noticesInFrames_eq_told (count : Nat) (s : Sequencer) :
    s.noticesInFrames count = (s.stepsInFrames count).flatMap Step.told := by
  induction count generalizing s with
  | zero => rfl
  | succ count ih =>
    rw [noticesInFrames, stepsInFrames, List.flatMap_append, ih, noticesInFrame, stepsInFrame]
    split
    · rw [noticesInPass_eq_told]
    · rfl

/-- A seek tells what its ticks tell. -/
theorem noticesInReplay_eq_told (ticks : Nat) (s : Sequencer) :
    s.noticesInReplay ticks = (s.stepsInReplay ticks).flatMap Step.told := by
  induction ticks generalizing s with
  | zero => rfl
  | succ ticks ih =>
    rw [noticesInReplay, stepsInReplay]
    split
    · rw [List.flatMap_cons, ih]
      rfl
    · rfl

/-- What a request tells belongs to its events. -/
theorem noticesIn_eq_told (s : Sequencer) (r : Request) :
    s.noticesIn r = (s.eventsIn r).flatMap Event.told := by
  have hsteps : ∀ steps : List Step,
      (steps.map Event.step).flatMap Event.told = steps.flatMap Step.told := fun _ =>
    List.flatMap_map ..
  cases r with
  | load song =>
    rw [eventsIn]
    split <;> rfl
  | play =>
    rw [eventsIn]
    split <;> rfl
  | seek target =>
    rw [eventsIn, List.flatMap_cons, hsteps, ← noticesInReplay_eq_told]
    rfl
  | render count =>
    rw [eventsIn, hsteps, ← noticesInFrames_eq_told]
    rfl
  | _ => rfl

/-- What a list of requests tells belongs to its events. -/
theorem along_noticesIn_eq_told (s : Sequencer) (requests : List Request) :
    along noticesIn s requests = (along eventsIn s requests).flatMap Event.told := by
  induction requests generalizing s with
  | nil => rfl
  | cons r requests ih =>
    rw [along, along, List.flatMap_append, ← ih, noticesIn_eq_told]

/-! ## The course of a run

A course is a row of events with the states that they connect, and with quiet moves in between. It
can be cut and joined anywhere. -/

/-- The events lead from one count of loops to another; nothing but an event changes it. -/
inductive Counts : Nat → List Event → Nat → Prop
  | nil (n : Nat) : Counts n [] n
  /-- At its start a song has not gone round. -/
  | rewind {n m : Nat} {events : List Event} (rest : Counts 0 events m) :
      Counts n (.rewind :: events) m
  /-- A tick counts from where the count was. -/
  | step (b : Step) {m : Nat} {events : List Event} (rest : Counts b.after.songLoops events m) :
      Counts b.before.songLoops (.step b :: events) m

/-- A move between two events: it is no tick and does not take the song back. -/
inductive Quiet : Sequencer → Sequencer → Prop
  | cut (s : Sequencer) : Quiet s s.cutVoices
  | sound (s : Sequencer) : Quiet s s.soundFrame.2
  | mute (i : Nat) (muted : Bool) (s : Sequencer) : Quiet s (s.setTrackMuted i muted).2
  | adjust (s : Sequencer) (transport : Transport) (account : Nat) (volume : MasterVolume)
      (notices : Notices) : Quiet s { s with transport, account, volume, notices }

theorem Quiet.move (h : Quiet s t) : Move s t := by
  cases h with
  | cut => exact .cut s
  | sound => exact .sound s
  | mute i muted => exact .mute i muted s
  | adjust _ transport account volume notices => exact .adjust s transport account volume notices

/-- The tracks stay where they are, and the count of loops stays as it is. -/
theorem Quiet.score_eq (h : Quiet s t) : t.score = { s.score with transport := t.transport } := by
  cases h with
  | cut => exact score_cutVoices s
  | sound =>
    rw [score_soundFrame]
    exact congrArg (fun transport => { s.score with transport })
      (congrArg Score.transport (score_soundFrame s)).symm
  | mute i muted =>
    rw [score_setTrackMuted]
    exact congrArg (fun transport => { s.score with transport })
      (congrArg Score.transport (score_setTrackMuted i muted s)).symm
  | adjust => rfl

/-- In particular no loop is counted in a quiet move. -/
theorem Quiet.songLoops_eq (h : Quiet s t) : t.songLoops = s.songLoops :=
  congrArg Score.songLoops h.score_eq

/-- The events lead from one state to another. Between them are quiet moves. -/
inductive Course : Sequencer → List Event → Sequencer → Prop
  | nil (s : Sequencer) : Course s [] s
  | load {s s' : Sequencer} {events : List Event} (song : Song)
      (rest : Course (s.withSong song) events s') : Course s (.rewind :: events) s'
  | rewind {s s' : Sequencer} {events : List Event} (rest : Course s.rewind events s') :
      Course s (.rewind :: events) s'
  | step (b : Step) {s' : Sequencer} {events : List Event} (rest : Course b.after events s') :
      Course b.before (.step b :: events) s'
  | quiet {s t s' : Sequencer} {events : List Event} (move : Quiet s t)
      (rest : Course t events s') : Course s events s'

variable {events later : List Event}

/-- Courses that meet make one course. -/
theorem Course.append (h : Course s events t) (h' : Course t later s') :
    Course s (events ++ later) s' := by
  induction h with
  | nil => exact h'
  | load song _ ih => exact .load song (ih h')
  | rewind _ ih => exact .rewind (ih h')
  | step b _ ih => exact .step b (ih h')
  | quiet move _ ih => exact .quiet move (ih h')

/-- Along a course only its events change the count of loops. -/
theorem Course.counts (h : Course s events s') : Counts s.songLoops events s'.songLoops := by
  induction h with
  | nil s => exact .nil _
  | load song _ ih => exact .rewind ih
  | rewind _ ih => exact .rewind ih
  | step b _ ih => exact .step b ih
  | quiet move _ ih => exact move.songLoops_eq ▸ ih

/-- A course can be cut behind its first event. -/
theorem Course.exists_of_cons {e : Event} (h : Course s (e :: events) s') :
    ∃ t, Course s [e] t ∧ Course t events s' := by
  -- the induction is over the whole course, so the events are given a name first
  generalize hall : e :: events = all at h
  induction h with
  | nil => cases hall
  | load song rest =>
    cases hall
    exact ⟨_, .load song (.nil _), rest⟩
  | rewind rest =>
    cases hall
    exact ⟨_, .rewind (.nil _), rest⟩
  | step b rest =>
    cases hall
    exact ⟨_, .step b (.nil _), rest⟩
  | quiet move _ ih =>
    obtain ⟨t, first, rest⟩ := ih hall
    exact ⟨t, .quiet move first, rest⟩

/-- A course can be cut anywhere. -/
theorem Course.exists_of_append (h : Course s (events ++ later) s') :
    ∃ t, Course s events t ∧ Course t later s' := by
  induction events generalizing s with
  | nil => exact ⟨s, .nil s, h⟩
  | cons e events ih =>
    obtain ⟨t, first, rest⟩ := h.exists_of_cons
    obtain ⟨u, before, after⟩ := ih rest
    exact ⟨u, first.append before, after⟩

/-- A course through a tick has one up to the end of the tick. -/
theorem Course.upTo_step {b : Step} (h : Course s (.step b :: events) s') :
    Course s [.step b] b.after := by
  generalize hall : Event.step b :: events = all at h
  induction h with
  | nil => cases hall
  | load => cases hall
  | rewind => cases hall
  | step =>
    cases hall
    exact .step b (.nil _)
  | quiet move _ ih => exact .quiet move (ih hall)

/-! ### Every request runs such a course

One lemma for each loop of the sequencer: the ticks of a frame, the frames of a rendering, the ticks
of a seek. -/

theorem course_of_quiet (move : Quiet s t) : Course s [] t := .quiet move (.nil t)

/-- A quiet move at the end adds no event. -/
theorem Course.tail (h : Course s events t) (move : Quiet t s') : Course s events s' := by
  have last := h.append (course_of_quiet move)
  rwa [List.append_nil] at last

/-- To pay for a tick is a quiet move in front of it. -/
theorem course_passTicks (count : Nat) (s : Sequencer) :
    Course s ((s.stepsInPass count).map .step) (s.passTicks count) := by
  induction count generalizing s with
  | zero => exact .nil s
  | succ count ih =>
    let b : Step := ⟨{ s with account := s.account - s.tickPrice }, true⟩
    have paid : Quiet s b.before := .adjust s s.transport _ s.volume s.notices
    refine .quiet paid (.step b ?_)
    show Course b.after _
      (if b.after.transport = .playing then passTicks count b.after else b.after)
    by_cases playing : b.after.transport = .playing
    · rw [if_pos playing, if_pos playing]
      exact ih b.after
    · rw [if_neg playing, if_neg playing]
      exact .nil b.after

/-- A frame is its ticks and then, if the song still plays, its sound. -/
theorem course_nextFrame (s : Sequencer) :
    Course s (s.stepsInFrame.map .step) s.nextFrame.2 := by
  unfold stepsInFrame nextFrame
  split
  · have ticked := course_passTicks (s.account / s.tickPrice) s
    dsimp only
    split
    · exact ticked.tail (.sound s.passDueTicks)
    · exact ticked
  · exact .nil s

theorem course_frames (count : Nat) (s : Sequencer) :
    Course s ((s.stepsInFrames count).map .step)
      ((fun s : Sequencer => s.nextFrame.2)^[count] s) := by
  induction count generalizing s with
  | zero => exact .nil s
  | succ count ih =>
    rw [stepsInFrames, List.map_append]
    exact (course_nextFrame s).append (ih s.nextFrame.2)

/-- Between two ticks of a seek the voices are cut, which is quiet. -/
theorem course_replay (ticks : Nat) (s : Sequencer) :
    Course s ((s.stepsInReplay ticks).map .step) (s.replay ticks) := by
  induction ticks generalizing s with
  | zero => exact .nil s
  | succ ticks ih =>
    rw [stepsInReplay, replay]
    split
    · exact .step ⟨s, false⟩ (.quiet (.cut _) (ih _))
    · exact .nil s

/-- Only a song that is played again from its end is rewound. -/
theorem course_play (s : Sequencer) : Course s (s.eventsIn .play) s.play := by
  have started : ∀ (t : Sequencer) (account : Nat),
      Quiet t { t with account, transport := .playing } := fun t account =>
    .adjust t .playing account t.volume t.notices
  rw [eventsIn, play]
  cases s.transport with
  | playing =>
    rw [if_neg (by rintro ⟨⟨⟩, -⟩)]
    exact .nil s
  | paused =>
    rw [if_neg (by rintro ⟨⟨⟩, -⟩)]
    exact course_of_quiet (started s s.account)
  | stopped =>
    dsimp only
    by_cases none : s.tracks = []
    · rw [if_pos none, if_neg fun h => h.2.1 none]
      exact .nil s
    · rw [if_neg none]
      by_cases finished : s.AllFinished
      · rw [if_pos ⟨rfl, none, finished⟩, if_pos finished]
        exact .rewind (course_of_quiet (started s.rewind _))
      · rw [if_neg fun h => finished h.2.2, if_neg finished]
        exact course_of_quiet (started s _)

/-- Every request runs a course along its events. -/
theorem course_answer (s : Sequencer) (r : Request) : Course s (s.eventsIn r) (s.answer r) := by
  cases r with
  | load song =>
    rw [answer_load, eventsIn]
    split
    · exact .load song (.nil _)
    · exact .nil s
  | play => exact course_play s
  | pause policy =>
    have held : Quiet s { s with transport := .paused } :=
      .adjust s .paused s.account s.volume s.notices
    rw [answer, pause]
    split
    · cases policy with
      | sustain => exact course_of_quiet held
      | cut => exact (course_of_quiet held).tail (.cut _)
    · exact .nil s
  | stop =>
    have halted : Quiet s { s with transport := .stopped } :=
      .adjust s .stopped s.account s.volume s.notices
    exact .quiet halted (.rewind (.nil _))
  | seek target =>
    have started : Quiet s.rewind { s.rewind with transport := .playing } :=
      .adjust s.rewind .playing s.rewind.account s.rewind.volume s.rewind.notices
    have played := course_replay (min target s.config.maxSeekTicks)
      { s.rewind with transport := .playing }
    exact .rewind (.quiet started (played.tail (.adjust _ _ _ _ _)))
  | setVolume volume =>
    exact course_of_quiet (.adjust s s.transport s.account volume s.notices)
  | setTrackMuted track muted =>
    exact course_of_quiet (.mute track muted s)
  | popNotice =>
    exact course_of_quiet (.adjust s s.transport s.account s.volume s.notices.pop.2)
  | drainNotices => exact course_of_quiet (.adjust s s.transport s.account s.volume {})
  | render count =>
    rw [answer_render]
    exact course_frames count s

/-- A whole list of requests takes a course. -/
theorem course_after (s : Sequencer) (requests : List Request) :
    Course s (along eventsIn s requests) (s.after requests) := by
  induction requests generalizing s with
  | nil => exact .nil s
  | cons r requests ih => exact (course_answer s r).append (ih (s.answer r))

/-! ## Moments and the events up to them

A moment may be inside a request. The events up to it begin with those of the requests before and
end with some of this one. -/

/-- The states right after the ticks of a frame are where its steps lead. -/
theorem ticksInPass_eq (count : Nat) (s : Sequencer) :
    s.ticksInPass count = (s.stepsInPass count).map Step.after := by
  induction count generalizing s with
  | zero => rfl
  | succ count ih =>
    rw [ticksInPass, stepsInPass, List.map_cons, apply_ite (List.map Step.after), ← ih]
    rfl

theorem ticksInFrames_eq (count : Nat) (s : Sequencer) :
    s.ticksInFrames count = (s.stepsInFrames count).map Step.after := by
  induction count generalizing s with
  | zero => rfl
  | succ count ih =>
    rw [ticksInFrames, stepsInFrames, List.map_append, ← ih, ticksInFrame, stepsInFrame,
      apply_ite (List.map Step.after), ← ticksInPass_eq]
    rfl

theorem ticksInReplay_eq (ticks : Nat) (s : Sequencer) :
    s.ticksInReplay ticks = (s.stepsInReplay ticks).map Step.after := by
  induction ticks generalizing s with
  | zero => rfl
  | succ ticks ih =>
    rw [ticksInReplay, stepsInReplay, apply_ite (List.map Step.after), List.map_cons, ← ih]
    rfl

/-- A step of a request leads to one of the ticks of the request. -/
theorem after_mem_ticksIn {r : Request} {b : Step} (mem : .step b ∈ s.eventsIn r) :
    b.after ∈ s.ticksIn r := by
  -- in a list of steps, events and the states behind them stand at the same places
  have among {steps : List Step} (mem : Event.step b ∈ steps.map .step) :
      b.after ∈ steps.map Step.after := by
    obtain ⟨b', hb', e⟩ := List.mem_map.mp mem
    cases e
    exact List.mem_map_of_mem hb'
  cases r with
  | load song =>
    rw [eventsIn] at mem
    split at mem <;> simp at mem
  | play =>
    rw [eventsIn] at mem
    split at mem <;> simp at mem
  | stop => simp [eventsIn] at mem
  | seek target =>
    rw [ticksIn, ticksInReplay_eq]
    exact among ((List.mem_cons.mp mem).resolve_left (by simp))
  | render count =>
    rw [ticksIn, ticksInFrames_eq]
    exact among mem
  | _ => cases mem

/-- The moments in the run of a new sequencer, with all the events up to each. -/
inductive IsMomentAfter (config : Config) (requests : List Request) :
    List Event → Sequencer → Prop
  /-- All requests have been answered. -/
  | done : IsMomentAfter config requests (along eventsIn (empty config) requests)
      ((empty config).after requests)
  /-- Tick `b` of the next request has just passed. -/
  | tick {r : Request} {before later : List Event} {b : Step}
      (h : ((empty config).after requests).eventsIn r = before ++ .step b :: later) :
      IsMomentAfter config requests
        (along eventsIn (empty config) requests ++ (before ++ [.step b])) b.after

variable {config : Config} {requests : List Request}

/-- A moment with the events up to it is a moment. -/
theorem IsMomentAfter.isMoment (h : IsMomentAfter config requests events s) :
    IsMoment config requests s := by
  cases h with
  | done => exact .done
  | @tick r before later b h =>
    have mem : .step b ∈ ((empty config).after requests).eventsIn r := by simp [h]
    exact .tick (after_mem_ticksIn mem)

/-- To each moment there is a course along the events up to it, from the empty sequencer on. -/
theorem IsMomentAfter.course (h : IsMomentAfter config requests events s) :
    Course (empty config) events s := by
  have past := course_after (empty config) requests
  cases h with
  | done => exact past
  | @tick r before later b h =>
    have present := course_answer ((empty config).after requests) r
    rw [h] at present
    obtain ⟨t, first, rest⟩ := present.exists_of_append
    exact past.append (first.append rest.upTo_step)

end Chiptune.Sequencer
