import Chiptune.Proofs.Track.Ownership
import Chiptune.Sequencer.Tick

/-!
# The parts of a song's tick

A tick of the song first ticks all tracks (`tickAll`) and then looks at the result: the song goes
on, or its tracks go on from their loop points, or it ends. `runTick_cases` says what a tick may
turn out to be, for proofs that need not know when.
-/

namespace Chiptune

/-- The track at its loop point, if it can go on from there, and else as it is. -/
def Track.restarted (t : Track) : Track := t.restart?.getD t

namespace Track

variable (t : Track)

/-- A loop point moves the playhead of a track and nothing else. -/
theorem restarted_eq : t.restarted = { t with head := t.head.restart?.getD t.head } := by
  unfold restarted restart?
  cases t.head.restart? <;> rfl

@[simp] theorem index_restarted : t.restarted.index = t.index := by rw [restarted_eq]

@[simp] theorem source_restarted : t.restarted.source = t.source := by rw [restarted_eq]

@[simp] theorem notes_restarted : t.restarted.notes = t.notes := by rw [restarted_eq]

/-- A track that could go on has not finished any more. -/
theorem restart?_eq_none_of_isFinished {t : Track} (finished : t.restarted.IsFinished) :
    t.restart? = none := by
  unfold restarted at finished
  cases h : t.restart? with
  | none => rfl
  | some u =>
    obtain ⟨head, hhead, rfl⟩ := Option.map_eq_some_iff.mp h
    unfold Playhead.restart? at hhead
    split at hhead
    · cases hhead
      rw [h] at finished
      cases finished
    · cases hhead

end Track

namespace Sequencer

variable {s : Sequencer}

/-! ## The tick of a song

All tracks tick first. What follows may count loops, put playheads back to their loop points and end
the song, but it starts no voice and adds no note. -/

/-- Tick all tracks, without a look at whether the song goes on. -/
def tickAll (s : Sequencer) : Sequencer :=
  let (tracks, stage) := tickTracks s.setting s.tracks s.stage
  { s with
    tracks
    pool := stage.pool
    tempo := stage.tempo
    notices := stage.notices
    tick := s.tick + 1 }

/-- What a tick makes of each track by itself, it makes of all of them. -/
theorem map_tickTracks {α : Type} {f g : Track → α} (env : Setting)
    (h : ∀ t stage, f (t.tick env stage).1 = g t) (tracks : List Track) (stage : Stage) :
    (tickTracks env tracks stage).1.map f = tracks.map g := by
  induction tracks generalizing stage with
  | nil => rfl
  | cons t tracks ih => rw [tickTracks, List.map_cons, List.map_cons, ih, h]

theorem map_index_tickTracks (env : Setting) (tracks : List Track) (stage : Stage) :
    (tickTracks env tracks stage).1.map Track.index = tracks.map Track.index := by
  refine map_tickTracks env (fun t stage => ?_) tracks stage
  exact (Track.turn_tick env t stage).index_eq

/-- When all tracks tick, the pool moves on, with new voices of these tracks only. -/
theorem evolves_tickTracks (env : Setting) (tracks : List Track) (stage : Stage) :
    stage.pool.Evolves (· ∈ tracks.map Track.index) (tickTracks env tracks stage).2.pool := by
  induction tracks generalizing stage with
  | nil => exact .refl stage.pool
  | cons t tracks ih =>
    have first := (Track.turn_tick env t stage).evolves
    have others := ih (t.tick env stage).2
    exact (first.mono fun i hi => by simp [hi]).trans (others.mono fun i hi => by simp [hi])

theorem runTick_eq (announce : Bool) (s : Sequencer) :
    s.runTick announce =
      if s.tickAll.AllFinished then s.tickAll.wrapOrEnd else s.tickAll.countLoops announce := rfl

/-- The limit ends the song or does nothing. -/
theorem checkLoopLimit_cases (s : Sequencer) :
    s.checkLoopLimit = s ∨ s.checkLoopLimit = s.endSong := by
  unfold checkLoopLimit
  split
  · split
    · exact Or.inr rfl
    · exact Or.inl rfl
  · exact Or.inl rfl

/-- After the ticks of its tracks a song may count its loops, take tracks back to their loop points
and end. -/
theorem runTick_cases (announce : Bool) (s : Sequencer) :
    ∃ (tracks : List Track) (songLoops : Nat) (notices : Notices),
      (tracks = s.tickAll.tracks ∨ tracks = s.tickAll.tracks.map Track.restarted) ∧
      (s.runTick announce = { s.tickAll with tracks, songLoops, notices } ∨
        s.runTick announce = { s.tickAll with tracks, songLoops, notices }.endSong) := by
  rw [runTick_eq]
  split
  · unfold wrapOrEnd
    split
    · exact ⟨_, _, _, Or.inr rfl, checkLoopLimit_cases _⟩
    · exact ⟨_, s.tickAll.songLoops, s.tickAll.notices, Or.inl rfl, Or.inr rfl⟩
  · unfold countLoops
    dsimp only
    split
    · exact ⟨_, s.tickAll.songLoops, s.tickAll.notices, Or.inl rfl, Or.inl rfl⟩
    · cases announce with
      | false => exact ⟨_, _, s.tickAll.notices, Or.inl rfl, checkLoopLimit_cases _⟩
      | true => exact ⟨_, _, _, Or.inl rfl, checkLoopLimit_cases _⟩

/-- A tick counts itself and leaves the account to whoever asked for it. -/
theorem runTick_shape (announce : Bool) (s : Sequencer) :
    ∃ (tracks : List Track) (pool : VoicePool) (notices : Notices) (transport : Transport)
      (tempo songLoops : Nat),
      s.runTick announce =
        { s with tracks, pool, notices, transport, tempo, songLoops, tick := s.tick + 1 } := by
  obtain ⟨tracks, songLoops, notices, -, h | h⟩ := runTick_cases announce s
  · exact ⟨_, _, _, _, _, _, h⟩
  · exact ⟨_, _, _, _, _, _, h⟩

end Sequencer
end Chiptune
