import Chiptune.Proofs.Playhead.Ending
import Chiptune.Proofs.Track.Tick
import Chiptune.Proofs.VoicePool.Evolution

/-!
# Tracks own their voices

A voice that has not been released is waiting for its track to release it, so the track must still
hold its handle. `Track.Owns` says so of one track and one pool: the handles that the track holds
are its own and all different, they fit the voices that they find, and no unreleased voice of the
track is without one.

The invariant speaks of one track only, and that is what makes it bear the other tracks: whatever
they do, they start no voice in this track's name (`Track.Owns.of_evolves`). What the track does
itself is a `Track.Turn`: it keeps the invariant and lets the pool evolve.
-/

namespace Chiptune

/-- The track holds a handle of each of its unreleased voices, and no handle of another track's. -/
structure Track.Owns (t : Track) (p : VoicePool) : Prop where
  /-- All handles have been given out. -/
  serial_lt : ∀ n ∈ t.notes, n.handle.serial < p.nextSerial
  nodup : (t.notes.map Note.handle).Nodup
  /-- What is found under a handle of the track is its own voice, on the key of the note. -/
  fits : ∀ n ∈ t.notes, ∀ v, p.get? n.handle = some v → v.track = t.index ∧ v.key = n.key
  /-- No voice of the track is left without a note, unless it was released. -/
  held : ∀ h v, p.get? h = some v → v.track = t.index → ¬ v.envelope.IsReleased →
    h ∈ t.notes.map Note.handle

/-- A track whose stream is over holds no notes. -/
def Track.EndsNotes (t : Track) : Prop := t.IsFinished → t.notes = []

/-- What a track and the pool may become while the track is at work. -/
structure Track.Turn (t : Track) (p : VoicePool) (t' : Track) (p' : VoicePool) : Prop where
  index_eq : t'.index = t.index
  /-- New voices are its own. -/
  evolves : p.Evolves (· = t.index) p'
  owns : t.Owns p → t'.Owns p'

namespace Track

variable {t t' t'' : Track} {p p' p'' : VoicePool} {env : Setting} {st : Stage}

/-! ## The invariant by itself

What the invariant needs to go on: the track keeps its notes, and the voices under their handles
stay what they are or go. -/

theorem owns_of_notes_eq_nil (notes : t.notes = [])
    (gone : ∀ h v, p.get? h = some v → v.track = t.index → v.envelope.IsReleased) : t.Owns p where
  serial_lt := by simp [notes]
  nodup := by simp [notes]
  fits := by simp [notes]
  held h v hv ht hr := absurd (gone h v hv ht) hr

/-- Only the index, the handles and the keys of a track matter. -/
theorem Owns.congr (o : t.Owns p) (index : t'.index = t.index)
    (notes : t'.notes.map (fun n => (n.handle, n.key)) =
      t.notes.map (fun n => (n.handle, n.key))) : t'.Owns p := by
  -- what is owned is said by the handles and keys of the notes alone
  have hmem : ∀ n' ∈ t'.notes, ∃ n ∈ t.notes, n.handle = n'.handle ∧ n.key = n'.key := by
    intro n' hn'
    have := List.mem_map_of_mem (f := fun n => (n.handle, n.key)) hn'
    rw [notes] at this
    obtain ⟨n, hn, e⟩ := List.mem_map.mp this
    exact ⟨n, hn, Prod.mk.inj e⟩
  have hhandles : t'.notes.map Note.handle = t.notes.map Note.handle := by
    simpa [Function.comp_def] using congrArg (List.map Prod.fst) notes
  refine ⟨?_, hhandles ▸ o.nodup, ?_, ?_⟩
  · intro n' hn'
    obtain ⟨n, hn, hh, -⟩ := hmem n' hn'
    exact hh ▸ o.serial_lt n hn
  · intro n' hn' v hv
    obtain ⟨n, hn, hh, hk⟩ := hmem n' hn'
    rw [index, ← hk]
    exact o.fits n hn v (hh ▸ hv)
  · intro h v hv ht hr
    rw [hhandles]
    exact o.held h v hv (ht.trans index) hr

/-- What other tracks do to the pool leaves the invariant alone. -/
theorem Owns.of_evolves {movers : Nat → Prop} (o : t.Owns p) (ev : p.Evolves movers p')
    (idle : ¬ movers t.index) : t.Owns p' := by
  refine ⟨?_, o.nodup, ?_, ?_⟩
  · intro n hn
    exact Nat.lt_of_lt_of_le (o.serial_lt n hn) ev.nextSerial_le
  · intro n hn w hw
    rcases ev.found hw with ⟨v, hv, hvw⟩ | ⟨new, -⟩
    · rw [hvw.track_eq, hvw.key_eq]
      exact o.fits n hn v hv
    · -- a voice that is new has a serial number that no held handle can have
      have := o.serial_lt n hn
      omega
  · intro h w hw ht hr
    rcases ev.found hw with ⟨v, hv, hvw⟩ | ⟨-, mover⟩
    · exact o.held h v hv (hvw.track_eq ▸ ht) (fun r => hr (hvw.isReleased r))
    · exact absurd (ht ▸ mover) idle

/-- Notes may be forgotten when their voices are gone or in their release. -/
theorem Owns.forget {notes : List Note} (o : t.Owns p) (sub : notes.Sublist t.notes)
    (gone : ∀ n ∈ t.notes, n ∉ notes →
      ∀ v, p.get? n.handle = some v → v.envelope.IsReleased) : { t with notes }.Owns p where
  serial_lt n hn := o.serial_lt n (sub.subset hn)
  nodup := o.nodup.sublist (sub.map _)
  fits n hn := o.fits n (sub.subset hn)
  held h v hv ht hr := by
    obtain ⟨n, hn, rfl⟩ := List.mem_map.mp (o.held h v hv ht hr)
    by_cases kept : n ∈ notes
    · exact List.mem_map_of_mem kept
    · exact absurd (gone n hn kept v hv) hr

/-! ## Turns

A turn is what a track may do to its notes and to the pool at once. Turns can be put together, and
every one of them keeps the invariant. -/

theorem Turn.refl (t : Track) (p : VoicePool) : t.Turn p t p := ⟨rfl, .refl p, id⟩

theorem Turn.trans (a : t.Turn p t' p') (b : t'.Turn p' t'' p'') : t.Turn p t'' p'' :=
  ⟨b.index_eq.trans a.index_eq, a.evolves.trans (a.index_eq ▸ b.evolves), b.owns ∘ a.owns⟩

/-- A change of all voices that keeps what they are is part of any turn. -/
theorem turn_of_evolves (t : Track) (ev : p.Evolves (fun _ => False) p') : t.Turn p t p' :=
  ⟨rfl, ev.mono (fun _ never => never.elim), fun o => o.of_evolves ev id⟩

theorem releaseNotes_pool (st : Stage) (notes : List Note) :
    (st.releaseNotes notes).pool = st.pool.releaseAll (notes.map Note.handle) := by
  simp [Stage.releaseNotes, Stage.modifyPool, VoicePool.releaseAll, List.foldl_map]

/-- To release some notes and to keep the others is a turn. -/
theorem turn_endNotes (ends : Note → Bool) (t : Track) (st : Stage) :
    t.Turn st.pool (t.endNotes ends st).1 (t.endNotes ends st).2.pool := by
  have ev : ∀ movers, st.pool.Evolves movers (t.endNotes ends st).2.pool := by
    intro movers
    rw [endNotes, releaseNotes_pool]
    exact st.pool.evolves_releaseAll _
  refine ⟨rfl, ev _, fun o => ?_⟩
  refine (o.of_evolves (ev fun _ => False) id).forget List.filter_sublist ?_
  intro n hn dropped v hv
  -- what is not kept was picked out, so its voice is in its release
  have hends : ends n = true := by
    by_contra kept
    exact dropped (List.mem_filter.mpr ⟨hn, by simp [kept]⟩)
  rw [endNotes, releaseNotes_pool] at hv
  exact VoicePool.isReleased_of_mem (List.mem_map_of_mem (List.mem_filter.mpr ⟨hn, hends⟩)) hv

theorem turn_makeRoom (t : Track) (st : Stage) :
    t.Turn st.pool (t.makeRoom st).1 (t.makeRoom st).2.pool := by
  unfold makeRoom
  split
  · exact .refl t st.pool
  · have ev : ∀ movers, st.pool.Evolves movers (st.releaseNotes (t.notes.take 1)).pool := by
      intro movers
      rw [releaseNotes_pool]
      exact st.pool.evolves_releaseAll _
    refine ⟨rfl, ev _, fun o => ?_⟩
    refine (o.of_evolves (ev fun _ => False) id).forget (List.drop_sublist 1 _) ?_
    intro n hn dropped v hv
    have oldest : n ∈ t.notes.take 1 := by
      rw [← List.take_append_drop 1 t.notes, List.mem_append] at hn
      exact hn.resolve_right dropped
    rw [releaseNotes_pool] at hv
    exact VoicePool.isReleased_of_mem (List.mem_map_of_mem oldest) hv

/-! ## Starting a note

The new voice has the index of its track and is under a handle that nobody has. -/

/-- A voice is made in the name of the track and the key that it is for. -/
theorem voiceFor_eq_ok {index key velocity : Nat} {muted : Bool} {c : Controls} {voice : Voice}
    (h : voiceFor env index muted key velocity c = .ok voice) :
    voice.track = index ∧ voice.key = key := by
  unfold voiceFor at h
  split at h
  · cases h
  · split at h
    · cases h
    · cases h
      exact ⟨rfl, rfl⟩

/-- To put a voice into the pool and to hold its handle is a turn. -/
theorem turn_allocate {voice : Voice} {key : Nat} (remaining : Option Nat)
    (hvoice : voice.track = t.index ∧ voice.key = key) :
    t.Turn p { t with notes := t.notes ++ [⟨(p.allocate voice).1, key, remaining⟩] }
      (p.allocate voice).2 := by
  have ev : p.Evolves (· = t.index) (p.allocate voice).2 := p.evolves_allocate hvoice.1
  refine ⟨rfl, ev, fun o => ⟨?_, ?_, ?_, ?_⟩⟩
  · intro n hn
    rcases List.mem_append.mp hn with old | new
    · exact Nat.lt_succ_of_lt (o.serial_lt n old)
    · rw [List.mem_singleton.mp new]
      simp
  · -- the new serial number is greater than all that are held
    rw [List.map_append, List.nodup_append]
    refine ⟨o.nodup, by simp, ?_⟩
    intro h hh i hi e
    obtain ⟨n, hn, rfl⟩ := List.mem_map.mp hh
    have := o.serial_lt n hn
    rw [List.map_singleton, List.mem_singleton] at hi
    rw [e, hi, VoicePool.serial_allocate] at this
    exact Nat.lt_irrefl _ this
  -- a voice is found as before, or it is the new one under its new handle
  · intro n hn w hw
    rcases List.mem_append.mp hn with old | new
    · rcases VoicePool.get?_allocate hw with ⟨e, -⟩ | ⟨-, hw⟩
      · have := o.serial_lt n old
        rw [e, VoicePool.serial_allocate] at this
        exact absurd this (Nat.lt_irrefl _)
      · exact o.fits n old w hw
    · rw [List.mem_singleton.mp new] at hw ⊢
      rcases VoicePool.get?_allocate hw with ⟨-, rfl⟩ | ⟨other, -⟩
      · exact hvoice
      · exact absurd rfl other
  · intro h w hw ht hr
    rw [List.map_append, List.mem_append]
    rcases VoicePool.get?_allocate hw with ⟨rfl, -⟩ | ⟨-, hw⟩
    · exact Or.inr (by simp)
    · exact Or.inl (o.held h w hw ht hr)

theorem turn_hold {voice : Voice} {key : Nat} (duration : Option Nat) (t : Track) (st : Stage)
    (hvoice : voice.track = t.index ∧ voice.key = key) :
    t.Turn st.pool (t.hold key duration voice st).1 (t.hold key duration voice st).2.pool := by
  have room := turn_makeRoom t st
  refine room.trans (turn_allocate _ ?_)
  rw [room.index_eq]
  exact hvoice

theorem turn_noteOn (env : Setting) (key velocity : Nat) (duration : Option Nat) (c : Controls)
    (t : Track) (st : Stage) :
    t.Turn st.pool (t.noteOn env key velocity duration c st).1
      (t.noteOn env key velocity duration c st).2.pool := by
  unfold noteOn
  dsimp only
  split
  · next hv => exact turn_hold duration t st (voiceFor_eq_ok hv)
  · exact .refl t st.pool

/-! ## Effects and ticks

A tick is a turn, since each of its effects is. A track that finishes in it releases all its notes.
-/

theorem turn_apply (env : Setting) (t : Track) (st : Stage) (e : Effect) :
    t.Turn st.pool (t.apply env st e).1 (t.apply env st e).2.pool := by
  cases e with
  | noteOn key velocity duration c => exact turn_noteOn env key velocity duration c t st
  | noteOff key => exact turn_endNotes _ t st
  | mix c =>
    exact t.turn_of_evolves (st.pool.evolves_mapTrack t.index fun v =>
      .of_sameNote (.setMix v _ _))
  | tune c =>
    exact t.turn_of_evolves (st.pool.evolves_mapTrack t.index fun v =>
      .of_sameNote (.retune v _ _ _))
  | tempo bpm => exact .refl t st.pool
  | ended => exact turn_endNotes _ t st
  | failed error => exact turn_endNotes _ t st

theorem turn_applyAll (env : Setting) (effects : List Effect) (t : Track) (st : Stage) :
    t.Turn st.pool (applyAll env effects t st).1 (applyAll env effects t st).2.pool := by
  induction effects generalizing t st with
  | nil => exact .refl t st.pool
  | cons e effects ih => exact (turn_apply env t st e).trans (ih _ _)

theorem turn_countDown (t : Track) (st : Stage) :
    t.Turn st.pool (t.countDown st).1 (t.countDown st).2.pool := by
  have counted : t.Turn st.pool { t with notes := t.notes.map Note.countDown } st.pool :=
    ⟨rfl, .refl st.pool, fun o => o.congr rfl (by simp [Function.comp_def, Note.countDown])⟩
  exact counted.trans (turn_endNotes _ _ st)

/-- What a track does in a tick behind the count of its notes. -/
theorem turn_tick_of_countDown (env : Setting) (st : Stage) (unfinished : ¬ t.IsFinished) :
    (t.countDown st).1.Turn (t.countDown st).2.pool (t.tick env st).1 (t.tick env st).2.pool := by
  rw [tick_of_not_isFinished unfinished]
  have moved : ∀ (u : Track) (head : Playhead) (q : VoicePool), u.Turn q { u with head } q :=
    fun u head q => ⟨rfl, .refl q, fun o => o.congr rfl rfl⟩
  exact (moved _ _ _).trans (turn_applyAll env _ _ _)

/-- A tick of a track is a turn. -/
theorem turn_tick (env : Setting) (t : Track) (st : Stage) :
    t.Turn st.pool (t.tick env st).1 (t.tick env st).2.pool := by
  by_cases finished : t.IsFinished
  · rw [tick_of_isFinished finished]
    exact .refl t st.pool
  · exact (turn_countDown t st).trans (turn_tick_of_countDown env st finished)

/-- A track that finishes in a tick has let go of all its notes. -/
theorem endsNotes_tick (env : Setting) (st : Stage) (h : t.EndsNotes) :
    (t.tick env st).1.EndsNotes := by
  by_cases finished : t.IsFinished
  · rw [tick_of_isFinished finished]
    exact h
  · intro done
    have hhead : (t.head.tick env.driver env.commandLimit t.source.stream).1.IsFinished := by
      obtain ⟨notes, e⟩ := tick_eq env t st
      rw [e] at done
      exact done
    obtain ⟨before, e, heffects, hend⟩ := Playhead.endsLast_tick finished hhead
    rw [tick_of_not_isFinished finished, heffects, applyAll_concat]
    cases e with
    -- nothing follows the effect that ends all notes
    | ended => simp [apply, endNotes]
    | failed error => simp [apply, endNotes]
    | _ => exact hend.elim

end Track
end Chiptune
