import Chiptune.Proofs.Track.Tick

/-!
# What a track tells the host

A track tells the host of a note that cannot sound and of the error that it fails with, and of
nothing else. Both depend on what its playhead asks for and on the bank, but not on voices and
notes, so what a tick adds to the notifications can be said without looking at the stage:
`Track.noticesInTick` is the list, and `Track.notices_tick` says that it is added.
-/

namespace Chiptune

namespace Notices

/-- Add some notifications, one after the other. -/
def pushAll (q : Notices) (l : List Notification) : Notices := l.foldl push q

@[simp] theorem pushAll_nil (q : Notices) : q.pushAll [] = q := rfl

@[simp] theorem pushAll_cons (q : Notices) (n : Notification) (l : List Notification) :
    q.pushAll (n :: l) = (q.push n).pushAll l := rfl

theorem pushAll_append (q : Notices) (l m : List Notification) :
    q.pushAll (l ++ m) = (q.pushAll l).pushAll m :=
  List.foldl_append

/-- A queue keeps the order of what it is given, whatever has to make room. -/
theorem sublist_waiting_pushAll (q : Notices) (l : List Notification) :
    (q.pushAll l).waiting.Sublist (q.waiting ++ l) := by
  induction l generalizing q with
  | nil => simp
  | cons n l ih =>
    have pushed : (q.push n).waiting.Sublist (q.waiting ++ [n]) := by
      simp only [push, List.append_sublist_append_right]
      split
      · exact .refl _
      · exact List.drop_sublist 1 q.waiting
    rw [pushAll_cons, List.append_cons]
    exact (ih _).trans ((List.append_sublist_append_right l).mpr pushed)

/-- Nothing is lost as long as there is room. -/
theorem waiting_pushAll {q : Notices} {l : List Notification}
    (room : q.waiting.length + l.length ≤ capacity) : (q.pushAll l).waiting = q.waiting ++ l := by
  induction l generalizing q with
  | nil => simp
  | cons n l ih =>
    rw [List.length_cons] at room
    have first := waiting_push_of_lt n (show q.waiting.length < capacity by omega)
    rw [pushAll_cons, ih (by rw [first, List.length_append, List.length_singleton]; omega), first,
      ← List.append_cons]

end Notices

namespace Track

variable {env : Setting} {t : Track} {st : Stage}

/-! ## What effects tell

Told in terms of the track before the effect, and independent of what earlier effects of the tick
have done. -/

/-- What the host is told when an effect is carried out. -/
def noticesOf (env : Setting) (t : Track) : Effect → List Notification
  | .noteOn key velocity _ c =>
    match voiceFor env t.index t.muted (transposed key c.transpose) velocity c with
    | .ok _ => []
    | .error e => [.resourceMissing t.index e]
  | .failed e => [.trackFailed t.index e]
  | _ => []

/-- What the host is told in the next tick. -/
def noticesInTick (env : Setting) (t : Track) : List Notification :=
  (t.head.tick env.driver env.commandLimit t.source.stream).2.toList.flatMap (t.noticesOf env)

/-- No effect tells of the notes that are held or of how far the track has come. -/
theorem noticesOf_with (t : Track) (head : Playhead) (notes : List Note) :
    ({ t with head, notes } : Track).noticesOf env = t.noticesOf env := by
  funext e
  cases e <;> rfl

theorem noticesOf_apply (t : Track) (st : Stage) (e : Effect) :
    (t.apply env st e).1.noticesOf env = t.noticesOf env := by
  obtain ⟨notes, h⟩ := apply_fst env t st e
  rw [h]
  exact noticesOf_with t t.head notes

theorem notices_makeRoom (t : Track) (st : Stage) : (t.makeRoom st).2.notices = st.notices := by
  unfold makeRoom
  split <;> rfl

theorem notices_apply (env : Setting) (t : Track) (st : Stage) (e : Effect) :
    (t.apply env st e).2.notices = st.notices.pushAll (t.noticesOf env e) := by
  cases e with
  | noteOn key velocity duration c =>
    simp only [apply, noteOn, noticesOf]
    cases voiceFor env t.index t.muted (transposed key c.transpose) velocity c with
    | ok voice => exact notices_makeRoom t st
    | error e => rfl
  | _ => rfl

theorem notices_applyAll (env : Setting) (effects : List Effect) (t : Track) (st : Stage) :
    (applyAll env effects t st).2.notices =
      st.notices.pushAll (effects.flatMap (t.noticesOf env)) := by
  induction effects generalizing t st with
  | nil => rfl
  | cons e effects ih =>
    rw [applyAll_cons, ih, noticesOf_apply, notices_apply, List.flatMap_cons,
      Notices.pushAll_append]

theorem notices_tick (env : Setting) (t : Track) (st : Stage) :
    (t.tick env st).2.notices = st.notices.pushAll (t.noticesInTick env) := by
  unfold noticesInTick
  by_cases finished : t.IsFinished
  · rw [tick_of_isFinished finished, Playhead.tick_of_isFinished finished]
    rfl
  · rw [tick_of_not_isFinished finished, notices_applyAll]
    exact congrArg (fun f => st.notices.pushAll (List.flatMap f _)) (noticesOf_with t _ _)

/-- A track never tells of the song as a whole. -/
theorem not_isTurn_of_mem {n : Notification} (h : n ∈ t.noticesInTick env) : ¬ n.IsTurn := by
  obtain ⟨e, -, hn⟩ := List.mem_flatMap.mp h
  cases e with
  | noteOn key velocity duration c =>
    simp only [noticesOf] at hn
    split at hn
    · cases hn
    · rw [List.mem_singleton.mp hn]
      exact id
  | failed e =>
    rw [List.mem_singleton.mp hn]
    exact id
  | _ => cases hn

end Track
end Chiptune
