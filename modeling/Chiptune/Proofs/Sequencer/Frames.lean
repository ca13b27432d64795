import Chiptune.Proofs.Sequencer.Interjection
import Chiptune.Proofs.Sequencer.Twin

/-!
# The stream of frames

Whoever asks a sequencer for sound, and in pieces of whatever size, takes the frames of one stream.
`Sequencer.firstFrames` is the beginning of that stream. All ways to render are told in terms of it
(`toList_renderOnto`), and to cut it in two is to render twice (`firstFrames_add`).
-/

namespace Chiptune.Sequencer

variable {s s' : Sequencer}

/-- The next `count` frames. -/
def firstFrames : (count : Nat) → Sequencer → List Frame
  | 0, _ => []
  | count + 1, s => s.nextFrame.1 :: firstFrames count s.nextFrame.2

@[simp] theorem length_firstFrames (count : Nat) (s : Sequencer) :
    (s.firstFrames count).length = count := by
  induction count generalizing s with
  | zero => rfl
  | succ count ih => simp [firstFrames, ih]

theorem toList_renderOnto (count : Nat) (frames : Array Frame) (s : Sequencer) :
    (s.renderOnto count frames).1.toList = frames.toList ++ s.firstFrames count := by
  induction count generalizing s frames with
  | zero => simp [renderOnto, firstFrames]
  | succ count ih => simp [renderOnto, firstFrames, ih]

theorem toList_render (count : Nat) (s : Sequencer) :
    (s.render count).1.toList = s.firstFrames count :=
  toList_renderOnto count #[] s

theorem firstFrames_add (m n : Nat) (s : Sequencer) :
    s.firstFrames (m + n) = s.firstFrames m ++ (s.answer (.render m)).firstFrames n := by
  induction m generalizing s with
  | zero => simp [firstFrames, answer_render]
  | succ m ih =>
    have later : s.nextFrame.2.answer (.render m) = s.answer (.render (m + 1)) := by
      rw [answer_render, answer_render, Function.iterate_succ_apply]
    rw [Nat.succ_add, firstFrames, firstFrames, ih, later, List.cons_append]

theorem take_firstFrames {m n : Nat} (h : m ≤ n) (s : Sequencer) :
    (s.firstFrames n).take m = s.firstFrames m := by
  obtain ⟨k, rfl⟩ := Nat.exists_eq_add_of_le h
  rw [firstFrames_add, List.take_left' (length_firstFrames m s)]

/-- Of a song that does not play, all frames are silent. -/
theorem firstFrames_of_not_playing (count : Nat) (held : s.transport ≠ .playing) :
    s.firstFrames count = .replicate count .silence := by
  induction count with
  | zero => rfl
  | succ count ih => rw [firstFrames, nextFrame_of_not_playing held, ih, List.replicate_succ]

/-- A song that does not play after some frames does not play after more of them. -/
theorem not_playing_of_le {m n : Nat} (h : m ≤ n)
    (held : (s.answer (.render m)).transport ≠ .playing) :
    (s.answer (.render n)).transport ≠ .playing := by
  obtain ⟨k, rfl⟩ := Nat.exists_eq_add_of_le h
  rw [answer_render_add, (render_of_not_playing k held).1]
  exact held

/-- Twins give the same stream. -/
theorem Twin.firstFrames_eq (count : Nat) (h : Twin s s') :
    s'.firstFrames count = s.firstFrames count := by
  rw [← toList_render, ← toList_render]
  exact congrArg Array.toList (h.renderOnto_fst count #[])

end Chiptune.Sequencer
