import Chiptune.Proofs.Playhead.GoingBack
import Chiptune.Proofs.Sequencer.Score

/-!
# Tracks by themselves

Tracks share voices, tempo and notifications, but none of that ever reaches a playhead. At every
moment of every run, a track is where its stream alone has led it after as many ticks
(`Sequencer.head_eq_alone`), whatever the other tracks do and whoever listens.

The only thing that moves a playhead from outside is a song that goes on from its loop points after
all tracks have run out. Loop points are named in DSE alone, where nothing else counts as a loop, so
the song has not gone back as long as `songLoops` is zero (`IsMoment.songLoops_runTick`).
-/

namespace Chiptune

/-- Two streams: one that rests for two ticks between its loop point and its end, and one that
fails. -/
def Song.restAndFail : Song where
  driver := .dse
  sources := [.ofBytes ⟨#[0x99, 0x92, 0x02, 0x98]⟩, .ofBytes ⟨#[0xFF]⟩]

/-- The playhead that has passed `k` ticks of a stream. -/
def TrackSource.headAfter (driver : SoundDriver) (limit : Nat) (source : TrackSource) (k : Nat) :
    Playhead :=
  (fun h => (h.tick driver limit source.stream).1)^[k] (.atStart driver source.start)

namespace TrackSource

variable {driver : SoundDriver} {limit : Nat} {source : TrackSource}

theorem headAfter_succ (k : Nat) :
    source.headAfter driver limit (k + 1) =
      ((source.headAfter driver limit k).tick driver limit source.stream).1 :=
  Function.iterate_succ_apply' _ _ _

theorem loopPoint_headAfter (hdriver : driver ≠ .dse) (k : Nat) :
    (source.headAfter driver limit k).loopPoint = none := by
  induction k with
  | zero => rfl
  | succ k ih => rw [headAfter_succ, Playhead.loopPoint_tick hdriver, ih]

theorem loopCount_headAfter (k : Nat) : (source.headAfter .dse limit k).loopCount = 0 := by
  induction k with
  | zero => rfl
  | succ k ih => rw [headAfter_succ, Playhead.loopCount_tick, ih]

end TrackSource

/-! ## A track on its own

The same playhead on a track that shares nothing with a song. Bank, tempo, rate and stage are any.
-/

/-- `t` is a track that was started afresh on a stream and ticked `k` times, each time in whatever
setting and on whatever stage. Between its ticks it may have been muted and its notes forgotten. -/
inductive Track.Alone (driver : SoundDriver) (limit : Nat) (source : TrackSource) :
    Nat → Track → Prop
  /-- The track has just been started. -/
  | fresh (index : Nat) : Alone driver limit source 0 (.atStart driver index source)
  /-- Bank, tempo, rate and stage may be any at each tick. -/
  | tick {k : Nat} {t : Track} (h : Alone driver limit source k t) (env : Setting) (st : Stage)
      (hdriver : env.driver = driver) (hlimit : env.commandLimit = limit) :
      Alone driver limit source (k + 1) (t.tick env st).1
  | mute {k : Nat} {t : Track} (h : Alone driver limit source k t) (muted : Bool) :
      Alone driver limit source k { t with muted }
  | clearNotes {k : Nat} {t : Track} (h : Alone driver limit source k t) :
      Alone driver limit source k t.clearNotes

/-- A track on its own is where its stream leads it. -/
theorem Track.Alone.part_eq {driver : SoundDriver} {limit k : Nat} {source : TrackSource}
    {t : Track} (h : t.Alone driver limit source k) :
    t.part = ⟨source, source.headAfter driver limit k⟩ := by
  induction h with
  | fresh index => rfl
  | @tick k t _ env st hdriver hlimit ih =>
    obtain ⟨notes, ht⟩ := Track.tick_eq env t st
    obtain ⟨hsource, hhead⟩ := Part.mk.inj ih
    rw [ht, TrackSource.headAfter_succ, ← hhead, ← hsource, ← hdriver, ← hlimit]
    rfl
  | mute _ _ ih => exact ih
  | clearNotes _ ih => exact ih

/-! ## Tracks that have not gone back

At first each part is where its stream alone leads it. This ends in the moment in which the song
goes back to its loop points, which is when a song of DSE begins to count loops. -/

namespace Score

variable {c : Score}

/-- All parts are where their streams lead them, unless the song has gone back to its loop
points. -/
def Straight (c : Score) : Prop :=
  (c.driver = .dse → c.songLoops = 0) →
    ∀ p ∈ c.parts, p.head = p.source.headAfter c.driver c.commandLimit c.tick

theorem Straight.tickAll (h : c.Straight) : c.tickAll.Straight := by
  intro once p' hp'
  obtain ⟨p, hp, rfl⟩ := List.mem_map.mp hp'
  have hhead := h once p hp
  show (p.head.tick c.driver c.commandLimit p.source.stream).1 =
    p.source.headAfter c.driver c.commandLimit (c.tick + 1)
  rw [TrackSource.headAfter_succ, ← hhead]

/-- A song for another driver than DSE has no loop points to go back to. -/
theorem Straight.not_goesBack (h : c.Straight) (hdriver : c.driver ≠ .dse) : ¬ c.GoesBack := by
  rintro ⟨-, p, hp, back⟩
  have hhead := h.tickAll (fun dse => absurd dse hdriver) p hp
  have hnone : p.head.loopPoint = none := by
    rw [hhead]
    exact TrackSource.loopPoint_headAfter hdriver _
  rw [Playhead.restart?, hnone] at back
  cases back

theorem Straight.pass (h : c.Straight) : c.pass.Straight := by
  obtain ⟨parts, songLoops, transport, hpass, -, hcases⟩ := pass_cases c
  rw [hpass]
  intro once
  rcases hcases with ⟨-, rfl, hle, -⟩ | ⟨back, -, hloops⟩
  · exact h.tickAll fun dse => Nat.le_zero.mp (Nat.le_trans hle (Nat.le_of_eq (once dse)))
  · -- in DSE the song has now counted a loop, and in other drivers it has nowhere to go back to
    by_cases dse : c.driver = .dse
    · have zero : songLoops = 0 := once dse
      omega
    · exact absurd back (h.not_goesBack dse)

/-- Without going back, a song of DSE counts no loops. -/
theorem Straight.commonLoops_tickAll (h : c.Straight) (dse : c.driver = .dse)
    (none : c.songLoops = 0) : c.tickAll.commonLoops = 0 := by
  let counts := (c.tickAll.parts.filter fun p => ¬ p.head.IsFinished).map fun p => p.head.loopCount
  have hzero : ∀ n ∈ counts, n = 0 := by
    intro n hn
    obtain ⟨p, hp, rfl⟩ := List.mem_map.mp hn
    have hhead := h.tickAll (fun _ => none) p (List.mem_filter.mp hp).1
    rw [show c.tickAll.driver = .dse from dse] at hhead
    rw [hhead]
    exact TrackSource.loopCount_headAfter _
  show counts.min?.getD 0 = 0
  cases hmin : counts.min? with
  | none => rfl
  | some n => exact hzero n (List.min?_mem hmin)

end Score

namespace Sequencer

variable {s s' : Sequencer} {config : Config} {requests : List Request} {song : Song}

theorem straight_rewind (s : Sequencer) : s.rewind.score.Straight := by
  intro _ p hp
  simp only [score, rewind, List.map_map] at hp
  obtain ⟨t, -, rfl⟩ := List.mem_map.mp hp
  rfl

theorem straight_of_move (h : Move s s') (straight : s.score.Straight) : s'.score.Straight := by
  cases h with
  | rewind => exact straight_rewind s
  | tick announce =>
    rw [score_runTick]
    exact straight.pass
  | cut =>
    rw [score_cutVoices]
    exact straight
  | sound =>
    rw [score_soundFrame]
    exact straight
  | mute i muted =>
    rw [score_setTrackMuted]
    exact straight
  | adjust => exact straight

theorem IsMoment.straight (h : IsMoment config requests s) : s.score.Straight := by
  refine h.invariant (P := fun s => s.score.Straight) ?_ (fun s song _ => straight_rewind _)
    straight_of_move
  exact fun _ p hp => by cases hp

/-! ## Tracks at any moment

Moments are reached by moves, and no move but a tick that goes back to loop points takes a part off
the way of its stream. -/

/-- The next tick takes the song back to its loop points. -/
def GoesBack (s : Sequencer) : Prop :=
  s.tickAll.AllFinished ∧ ∃ t ∈ s.tickAll.tracks, t.restart?.isSome

theorem goesBack_score (s : Sequencer) : s.score.GoesBack ↔ s.GoesBack := by
  unfold Score.GoesBack GoesBack
  rw [← score_tickAll, allFinished_score]
  simp [score, Track.part, Track.restart?]

/-- A song of DSE begins to count loops when it first goes back to its loop points. -/
theorem IsMoment.songLoops_runTick (h : IsMoment config requests s) (dse : s.driver = .dse)
    (none : s.songLoops = 0) (announce : Bool) :
    (s.runTick announce).songLoops = 0 ↔ ¬ s.GoesBack := by
  rw [← goesBack_score]
  have hloops : (s.runTick announce).songLoops = s.score.pass.songLoops := by
    rw [← score_runTick announce]
    rfl
  obtain ⟨_, songLoops, _, hpass, -, hcases⟩ := s.score.pass_cases
  rw [hloops, hpass]
  rcases hcases with ⟨straight, -, -, hsame | hcommon⟩ | ⟨back, -, hmore⟩
  · exact ⟨fun _ => straight, fun _ => hsame.trans none⟩
  · exact ⟨fun _ => straight, fun _ => hcommon.trans (h.straight.commonLoops_tickAll dse none)⟩
  · exact ⟨fun zero => absurd (hmore.symm.trans zero) (Nat.succ_ne_zero _),
      fun straight => absurd back straight⟩

/-- Tracks are isolated. At every moment of every run, the playhead of a track is that of a fresh
track on the same stream that was ticked alone as many times as the song has ticked since it was
last rewound; only a song of DSE must not have gone back to its loop points since, which is to say
that it has counted no loops (`IsMoment.songLoops_runTick`). Of what either of them played with
nothing matters but the driver and the command limit. -/
theorem head_eq_alone (moment : IsMoment config requests s)
    (loaded : loadedSong? requests = some song) (once : song.driver = .dse → s.songLoops = 0)
    {i : Nat} {source : TrackSource} (hi : song.sources[i]? = some source) {lone : Track}
    (alone : lone.Alone song.driver config.commandLimit source s.tick) :
    ∃ t, s.tracks[i]? = some t ∧ t.head = lone.head := by
  have hfixture := moment.fixture loaded
  have hdriver : s.driver = song.driver := congrArg Fixture.driver hfixture
  have hlimit : s.config.commandLimit = config.commandLimit :=
    congrArg (fun f : Fixture => f.config.commandLimit) hfixture
  have hsource : (s.tracks[i]?).map Track.source = some source := by
    rw [← List.getElem?_map, map_source_of_fixture hfixture, hi]
  obtain ⟨t, ht, hsource⟩ := Option.map_eq_some_iff.mp hsource
  refine ⟨t, ht, ?_⟩
  have hpart : t.part ∈ s.score.parts := List.mem_map_of_mem (List.mem_of_getElem? ht)
  have hhead := moment.straight (fun dse => once (hdriver.symm.trans dse)) t.part hpart
  calc t.head
    _ = t.source.headAfter s.driver s.config.commandLimit s.tick := hhead
    _ = source.headAfter song.driver config.commandLimit s.tick := by rw [hsource, hdriver, hlimit]
    _ = lone.head := (congrArg Part.head alone.part_eq).symm

theorem head_eq_alone_restAndFail :
    let s := (empty {}).after [.load .restAndFail, .seek 2]
    let env : Setting := { driver := .dse, bank := {}, sampleRate := 1, commandLimit := 1000 }
    let st : Stage := { pool := .empty 1, tempo := 1, notices := {} }
    let lone := Track.atStart .dse 7 (.ofBytes ⟨#[0x99, 0x92, 0x02, 0x98]⟩)
    ∃ t, s.tracks[0]? = some t ∧ t.head = ((lone.tick env st).1.tick env st).1.head := by
  intro s env st lone
  have htick : s.tick = 2 := by decide +kernel
  have hloops : s.songLoops = 0 := by decide +kernel
  have fresh : lone.Alone .dse 1000 (.ofBytes ⟨#[0x99, 0x92, 0x02, 0x98]⟩) 0 := .fresh 7
  have alone := (fresh.tick env st rfl rfl).tick env st rfl rfl
  have moment : IsMoment {} [.load .restAndFail, .seek 2] s := .done
  clear_value s
  exact head_eq_alone moment rfl (fun _ => hloops) (i := 0) rfl (by rw [htick]; exact alone)

end Sequencer
end Chiptune
