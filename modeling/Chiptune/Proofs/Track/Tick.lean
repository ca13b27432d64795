import Chiptune.Track

/-!
# What a tick of a track can change

Carrying out an effect changes the notes of a track and the stage, and nothing else of the track.
A tick therefore moves the playhead exactly as `Playhead.tick` does, whatever happens to notes and
voices (`Track.tick_eq`), and the tempo that it leaves behind can be read off the effects
(`Track.tempo_tick`). Together they say that neither the bank nor the pool, and no other track,
ever reaches a playhead or the tempo.
-/

namespace Chiptune

/-- The tempo after an effect, given the one before. -/
def Effect.tempoAfter (tempo : Nat) : Effect → Nat
  | .tempo bpm => max 1 bpm
  | _ => tempo

namespace Track

variable {env : Setting} {t : Track} {st : Stage}

/-! ## Single effects

Effects are carried out on the notes and the stage. Only one of them sets the tempo. -/

theorem makeRoom_fst (t : Track) (st : Stage) : ∃ notes, (t.makeRoom st).1 = { t with notes } := by
  unfold makeRoom
  split
  · exact ⟨t.notes, rfl⟩
  · exact ⟨_, rfl⟩

theorem tempo_makeRoom (t : Track) (st : Stage) : (t.makeRoom st).2.tempo = st.tempo := by
  unfold makeRoom
  split <;> rfl

theorem noteOn_fst (env : Setting) (key velocity : Nat) (duration : Option Nat) (c : Controls)
    (t : Track) (st : Stage) :
    ∃ notes, (t.noteOn env key velocity duration c st).1 = { t with notes } := by
  unfold noteOn
  dsimp only
  split
  · next voice _ =>
    obtain ⟨notes, h⟩ := makeRoom_fst t st
    exact ⟨_, by unfold hold; dsimp only; rw [h]⟩
  · exact ⟨t.notes, rfl⟩

theorem tempo_noteOn (env : Setting) (key velocity : Nat) (duration : Option Nat) (c : Controls)
    (t : Track) (st : Stage) : (t.noteOn env key velocity duration c st).2.tempo = st.tempo := by
  unfold noteOn
  dsimp only
  split
  · exact tempo_makeRoom t st
  · rfl

/-- An effect changes nothing of a track but its notes. -/
theorem apply_fst (env : Setting) (t : Track) (st : Stage) (e : Effect) :
    ∃ notes, (t.apply env st e).1 = { t with notes } := by
  cases e with
  | noteOn key velocity duration c => exact noteOn_fst env key velocity duration c t st
  | noteOff key => exact ⟨_, rfl⟩
  | mix c => exact ⟨t.notes, rfl⟩
  | tune c => exact ⟨t.notes, rfl⟩
  | tempo bpm => exact ⟨t.notes, rfl⟩
  | ended => exact ⟨_, rfl⟩
  | failed error => exact ⟨_, rfl⟩

theorem tempo_apply (env : Setting) (t : Track) (st : Stage) (e : Effect) :
    (t.apply env st e).2.tempo = e.tempoAfter st.tempo := by
  cases e with
  | noteOn key velocity duration c => exact tempo_noteOn env key velocity duration c t st
  | _ => rfl

/-! ## Several effects

The same of a list of effects, in their order. -/

/-- Carry out some effects in their order. -/
def applyAll (env : Setting) (effects : List Effect) (t : Track) (st : Stage) : Track × Stage :=
  effects.foldl (fun (t, st) e => t.apply env st e) (t, st)

@[simp] theorem applyAll_nil : applyAll env [] t st = (t, st) := rfl

@[simp] theorem applyAll_cons (e : Effect) (effects : List Effect) :
    applyAll env (e :: effects) t st =
      applyAll env effects (t.apply env st e).1 (t.apply env st e).2 := rfl

theorem applyAll_concat (effects : List Effect) (e : Effect) :
    applyAll env (effects ++ [e]) t st =
      (applyAll env effects t st).1.apply env (applyAll env effects t st).2 e := by
  unfold applyAll
  rw [List.foldl_append]
  rfl

theorem applyAll_fst (env : Setting) (effects : List Effect) (t : Track) (st : Stage) :
    ∃ notes, (applyAll env effects t st).1 = { t with notes } := by
  induction effects generalizing t st with
  | nil => exact ⟨t.notes, rfl⟩
  | cons e effects ih =>
    obtain ⟨notes, h⟩ := apply_fst env t st e
    obtain ⟨notes', h'⟩ := ih (t.apply env st e).1 (t.apply env st e).2
    exact ⟨notes', by rw [applyAll_cons, h', h]⟩

theorem tempo_applyAll (env : Setting) (effects : List Effect) (t : Track) (st : Stage) :
    (applyAll env effects t st).2.tempo = effects.foldl Effect.tempoAfter st.tempo := by
  induction effects generalizing t st with
  | nil => rfl
  | cons e effects ih => rw [applyAll_cons, ih, tempo_apply, List.foldl_cons]

/-! ## A tick

A tick of a track in terms of the tick of its playhead. -/

/-- A track that is under way counts its notes down and then does what its playhead asks for. -/
theorem tick_of_not_isFinished (unfinished : ¬ t.IsFinished) :
    t.tick env st =
      applyAll env (t.head.tick env.driver env.commandLimit t.source.stream).2.toList
        { (t.countDown st).1 with
          head := (t.head.tick env.driver env.commandLimit t.source.stream).1 }
        (t.countDown st).2 := by
  rw [tick, if_neg unfinished, applyAll, Array.foldl_toList]
  rfl

theorem tick_of_isFinished (finished : t.IsFinished) : t.tick env st = (t, st) := by
  rw [tick, if_pos finished]

/-- A tick moves the playhead on its own stream and may change the notes, and that is all. -/
theorem tick_eq (env : Setting) (t : Track) (st : Stage) :
    ∃ notes, (t.tick env st).1 =
      { t with head := (t.head.tick env.driver env.commandLimit t.source.stream).1, notes } := by
  by_cases finished : t.IsFinished
  · exact ⟨t.notes, by
      rw [tick_of_isFinished finished, Playhead.tick_of_isFinished finished]⟩
  · rw [tick_of_not_isFinished finished]
    obtain ⟨notes, h⟩ := applyAll_fst env _ _ _
    exact ⟨notes, h⟩

/-- The tempo after a tick is what the effects of the playhead make of the tempo before. -/
theorem tempo_tick (env : Setting) (t : Track) (st : Stage) :
    (t.tick env st).2.tempo =
      (t.head.tick env.driver env.commandLimit t.source.stream).2.toList.foldl
        Effect.tempoAfter st.tempo := by
  by_cases finished : t.IsFinished
  · rw [tick_of_isFinished finished, Playhead.tick_of_isFinished finished]
    rfl
  · rw [tick_of_not_isFinished finished, tempo_applyAll]
    rfl

end Track
end Chiptune
