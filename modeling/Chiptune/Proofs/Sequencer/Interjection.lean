import Chiptune.Proofs.Sequencer.Muting

/-!
# Controls that leave no trace

A host may mute tracks, change the volume, and hold a song for a while. `Interjected` says of two
lists of requests that the second one asks for the same as the first and for such things besides,
at any places. Whatever was interjected, the song takes the course that it would have taken, frame
by frame of those in which it plays (`controls_leave_no_trace`): frames of a song that is held do
nothing, and muting and volume are not heard of anywhere but in the frames themselves.
-/

namespace Chiptune

/-- What can be noticed of a run from outside: the host is told something, or a frame of a song that
plays begins, in the state that is given. -/
inductive Happening
  /-- The host is told something. -/
  | told (n : Notification)
  /-- A frame of a song that plays begins. -/
  | played (begun : Sequencer)

/-- The same happens in two runs. The states around a frame are alike, and where the mixing is the
same, the frame is. -/
inductive Happening.Alike : Happening → Happening → Prop
  | told (n : Notification) : Alike (.told n) (.told n)
  | played {s s' : Sequencer} (before : s.Alike s') (after : s.nextFrame.2.Alike s'.nextFrame.2)
      (sound : s'.mixing = s.mixing → s'.nextFrame.1 = s.nextFrame.1) :
      Alike (.played s) (.played s')

/-- A song that is held stays at its place while this is done, and held. -/
def Request.KeepsHold : Request → Prop
  | .render _ => True
  | .setTrackMuted _ _ => True
  | .setVolume _ => True
  | _ => False

namespace Sequencer

variable {s s' : Sequencer} {base other : List Request}

/-- From `s` on, `other` asks for the same as `base` and besides, here and there, to mute a track or
to let it be heard, to change the volume, or to hold a song that is playing and later to play on.
What comes in the middle of a rendering cuts it in two. -/
inductive Interjected : Sequencer → List Request → List Request → Prop
  | nil (s : Sequencer) : Interjected s [] []
  /-- Both runs are asked for the same. -/
  | ask {s : Sequencer} {base other : List Request} (r : Request)
      (rest : Interjected (s.answer r) base other) : Interjected s (r :: base) (r :: other)
  /-- Sound may be asked for in two pieces, with something in between. -/
  | cutRender {s : Sequencer} {base other : List Request} (m n : Nat)
      (rest : Interjected s (.render m :: .render n :: base) other) :
      Interjected s (.render (m + n) :: base) other
  /-- A track is muted or let be heard. -/
  | mute {s : Sequencer} {base other : List Request} (i : Nat) (muted : Bool)
      (rest : Interjected (s.answer (.setTrackMuted i muted)) base other) :
      Interjected s base (.setTrackMuted i muted :: other)
  /-- The volume is changed. -/
  | volume {s : Sequencer} {base other : List Request} (volume : MasterVolume)
      (rest : Interjected (s.answer (.setVolume volume)) base other) :
      Interjected s base (.setVolume volume :: other)
  /-- The song is held, and played again after a while. -/
  | hold {s : Sequencer} {base other : List Request} (playing : s.transport = .playing)
      (held : List Request) (keep : ∀ r ∈ held, r.KeepsHold)
      (rest : Interjected (s.after (.pause .sustain :: held ++ [.play])) base other) :
      Interjected s base ((.pause .sustain :: held ++ [.play]) ++ other)

/-! ## What happens in a run

A run is taken for what can be noticed of it: notifications and frames. Frames in which nothing
plays are silent and are not listed. -/

/-- The states in which the next `count` frames begin. -/
def begunInFrames : (count : Nat) → Sequencer → List Sequencer
  | 0, _ => []
  | count + 1, s => s :: begunInFrames count s.nextFrame.2

/-- The states in which frames begin while the sequencer does what was asked. -/
def begunIn (s : Sequencer) : Request → List Sequencer
  | .render count => s.begunInFrames count
  | _ => []

/-- What happens in the next frame. -/
def happeningsInFrame (s : Sequencer) : List Happening :=
  if s.transport = .playing then s.noticesInFrame.map .told ++ [.played s] else []

/-- What happens while the sequencer does what was asked. -/
def happeningsIn (s : Sequencer) : Request → List Happening
  | .render count => (s.begunInFrames count).flatMap happeningsInFrame
  | r => (s.noticesIn r).map .told

/-- What requests make happen, and then later ones. -/
theorem along_append {α : Type} (f : Sequencer → Request → List α) (requests later : List Request)
    (s : Sequencer) :
    along f s (requests ++ later) = along f s requests ++ along f (s.after requests) later := by
  induction requests generalizing s with
  | nil => rfl
  | cons r requests ih => rw [List.cons_append, along, ih, along, List.append_assoc, after_cons]

/-- The frames that a stretch of sound begins, cut in two. -/
theorem begunInFrames_add (m n : Nat) (s : Sequencer) :
    s.begunInFrames (m + n) =
      s.begunInFrames m ++ (s.answer (.render m)).begunInFrames n := by
  induction m generalizing s with
  | zero =>
    rw [Nat.zero_add]
    rfl
  | succ m ih =>
    rw [Nat.succ_add, begunInFrames, ih, begunInFrames, answer_render, answer_render,
      Function.iterate_succ_apply]
    rfl

/-- Sound may be rendered in two parts. -/
theorem answer_render_add (m n : Nat) (s : Sequencer) :
    s.answer (.render (m + n)) = (s.answer (.render m)).answer (.render n) := by
  rw [answer_render, answer_render, answer_render, Nat.add_comm, Function.iterate_add_apply]

/-! ## Alike runs

The same requests make the like happen on both sides, because to be alike is a likeness. -/

/-- The sequencers are alike, and all voices follow their tracks. -/
structure Matched (s s' : Sequencer) : Prop where
  alike : s.Alike s'
  inOrder : s.InOrder
  inOrder' : s'.InOrder

theorem Matched.answer (r : Request) (h : s.Matched s') : (s.answer r).Matched (s'.answer r) :=
  ⟨likeness_alike.answer r h.alike, h.inOrder.answer r, h.inOrder'.answer r⟩

theorem Matched.nextFrame (h : s.Matched s') : s.nextFrame.2.Matched s'.nextFrame.2 :=
  ⟨likeness_alike.nextFrame h.alike, h.inOrder.moves (moves_nextFrame s),
    h.inOrder'.moves (moves_nextFrame s')⟩

theorem alike_told (l : List Notification) :
    List.Forall₂ Happening.Alike (l.map .told) (l.map .told) := by
  rw [List.forall₂_same]
  intro happening mem
  obtain ⟨n, -, rfl⟩ := List.mem_map.mp mem
  exact .told n

/-- What happens in a frame is alike for matched sequencers. -/
theorem Matched.happeningsInFrame (h : s.Matched s') :
    List.Forall₂ Happening.Alike s.happeningsInFrame s'.happeningsInFrame := by
  have sound : s'.mixing = s.mixing → s'.nextFrame.1 = s.nextFrame.1 := by
    intro mixing
    rw [h.alike.eq h.inOrder h.inOrder' mixing]
  unfold Sequencer.happeningsInFrame
  rw [likeness_alike.transport_eq h.alike, likeness_alike.noticesInFrame_eq h.alike]
  split
  · exact List.rel_append (alike_told _)
      (.cons (.played h.alike h.nextFrame.alike sound) .nil)
  · exact .nil

theorem Matched.happeningsInFrames (count : Nat) (h : s.Matched s') :
    List.Forall₂ Happening.Alike ((s.begunInFrames count).flatMap Sequencer.happeningsInFrame)
      ((s'.begunInFrames count).flatMap Sequencer.happeningsInFrame) := by
  induction count generalizing s s' with
  | zero => exact .nil
  | succ count ih => exact List.rel_append h.happeningsInFrame (ih h.nextFrame)

/-- What happens in a request is alike for matched sequencers. -/
theorem Matched.happeningsIn (r : Request) (h : s.Matched s') :
    List.Forall₂ Happening.Alike (s.happeningsIn r) (s'.happeningsIn r) := by
  have told : List.Forall₂ Happening.Alike ((s.noticesIn r).map .told)
      ((s'.noticesIn r).map .told) := by
    rw [likeness_alike.noticesIn_eq r h.alike]
    exact alike_told _
  cases r with
  | render count => exact h.happeningsInFrames count
  | _ => exact told

/-! ## Songs that are held

While the song is held, frames are silent and nothing moves. To play it again puts it back to where
it was, account and voices included. -/

/-- A sequencer that does not play gives silence and stays as it is. -/
theorem nextFrame_of_not_playing (held : s.transport ≠ .playing) :
    s.nextFrame = (.silence, s) := by
  rw [nextFrame, if_neg held]

/-- Of a song that does not play, a frame is silent and moves nothing, so nothing happens. -/
theorem render_of_not_playing (count : Nat) (held : s.transport ≠ .playing) :
    s.answer (.render count) = s ∧ s.happeningsIn (.render count) = [] := by
  have hnothing : s.happeningsInFrame = [] := by rw [happeningsInFrame, if_neg held]
  have hframe : s.nextFrame.2 = s := by rw [nextFrame_of_not_playing held]
  induction count with
  | zero => exact ⟨rfl, rfl⟩
  | succ count ih =>
    obtain ⟨hsame, hnone⟩ := ih
    rw [answer_render] at hsame ⊢
    refine ⟨?_, ?_⟩
    · rw [Function.iterate_succ_apply, hframe, hsame]
    · show (s :: s.nextFrame.2.begunInFrames count).flatMap _ = []
      rw [List.flatMap_cons, hnothing, hframe]
      exact hnone

/-- While a sequencer is held, a request that keeps the hold leaves no trace in the song. -/
theorem keepsHold_answer {r : Request} (keeps : r.KeepsHold) (held : s.transport ≠ .playing) :
    s.Alike (s.answer r) ∧ s.happeningsIn r = [] := by
  cases r with
  | render count =>
    obtain ⟨hsame, hnone⟩ := render_of_not_playing count held
    rw [hsame]
    exact ⟨.refl s, hnone⟩
  | setTrackMuted i muted => exact ⟨alike_setTrackMuted i muted s, rfl⟩
  | setVolume volume => exact ⟨alike_setVolume volume s, rfl⟩
  | _ => exact keeps.elim

theorem keepsHold_after {requests : List Request} (keep : ∀ r ∈ requests, r.KeepsHold)
    (held : s.transport ≠ .playing) :
    s.Alike (s.after requests) ∧ along happeningsIn s requests = [] := by
  induction requests generalizing s with
  | nil => exact ⟨.refl s, rfl⟩
  | cons r requests ih =>
    obtain ⟨alike, hnone⟩ := keepsHold_answer (keep r List.mem_cons_self) held
    have held' : (s.answer r).transport ≠ .playing := by
      rw [likeness_alike.transport_eq alike]
      exact held
    obtain ⟨alike', hnone'⟩ := ih (fun r hr => keep r (List.mem_cons_of_mem _ hr)) held'
    exact ⟨alike.trans alike', by rw [along, hnone, hnone', List.append_nil]⟩

/-- A song that has been held and plays on goes on as if it had never been held. -/
theorem hold_after {held : List Request} (keep : ∀ r ∈ held, r.KeepsHold)
    (playing : s.transport = .playing) :
    s.Alike (s.after (.pause .sustain :: held ++ [.play])) ∧
      along happeningsIn s (.pause .sustain :: held ++ [.play]) = [] := by
  have hpaused : s.answer (.pause .sustain) = { s with transport := .paused } := by
    show s.pause .sustain = _
    rw [pause, if_pos playing]
  obtain ⟨alike, hnone⟩ := keepsHold_after keep
    (show ({ s with transport := .paused } : Sequencer).transport ≠ .playing by simp)
  refine ⟨?_, ?_⟩
  · rw [List.cons_append, after_cons, hpaused, after_concat]
    have resumed : (({ s with transport := .paused } : Sequencer).play).Alike _ :=
      likeness_alike.play alike
    have hresumed : ({ s with transport := .paused } : Sequencer).play = s := by
      rw [play, ← playing]
    rw [hresumed] at resumed
    exact resumed
  · rw [List.cons_append, along, hpaused, along_append, hnone]
    rfl

/-! ## The whole run

By induction on the interjections: each of them leads from matched sequencers to matched ones, and
adds silence at most. -/

/-- The run with the interjections and the run without do the like, request by request, and end
matched. -/
theorem Matched.interjected (h : Interjected s' base other) (m : s.Matched s') :
    List.Forall₂ Happening.Alike (along Sequencer.happeningsIn s base)
        (along Sequencer.happeningsIn s' other) ∧
      (s.after base).Matched (s'.after other) := by
  induction h generalizing s with
  | nil => exact ⟨.nil, m⟩
  | ask r _ ih =>
    obtain ⟨happen, matched⟩ := ih (m.answer r)
    exact ⟨List.rel_append (m.happeningsIn r) happen, matched⟩
  -- cutting a rendering in two begins the same frames
  | cutRender k n _ ih =>
    obtain ⟨happen, matched⟩ := ih m
    rw [along, along, ← List.append_assoc] at happen
    rw [along, after_cons, answer_render_add]
    refine ⟨?_, matched⟩
    rw [Sequencer.happeningsIn, begunInFrames_add, List.flatMap_append]
    exact happen
  | mute i muted _ ih =>
    exact ih ⟨m.alike.trans (alike_setTrackMuted i muted _), m.inOrder, m.inOrder'.answer _⟩
  | volume volume _ ih =>
    exact ih ⟨m.alike.trans (alike_setVolume volume _), m.inOrder, m.inOrder'.answer _⟩
  -- what is asked for while the song is held moves neither of them on
  | hold playing held keep _ ih =>
    obtain ⟨alike, hnone⟩ := hold_after keep playing
    obtain ⟨happen, matched⟩ := ih ⟨m.alike.trans alike, m.inOrder, m.inOrder'.after _⟩
    refine ⟨?_, ?_⟩
    · rw [along_append, hnone]
      exact happen
    · rw [after_append]
      exact matched

/-- Muting, volume and holding leave no trace in a song. If one run differs from another one only in
that they are interjected, then the same happens in both: in each frame that is played, with the
notifications up to it, the songs are alike before and after it, and where the same tracks are muted
at the same volume, the frames are the same. In the end the songs are alike, and once the mixing is
the same again, nothing is different at all. Meanwhile every frame of a song that does not play is
silent and changes nothing. -/
theorem controls_leave_no_trace {config : Config} (h : Interjected (empty config) base other) :
    let s := (empty config).after base
    let s' := (empty config).after other
    List.Forall₂ Happening.Alike (along happeningsIn (empty config) base)
      (along happeningsIn (empty config) other) ∧
    s.Alike s' ∧ (s'.mixing = s.mixing → s' = s) ∧
    ∀ begun ∈ along begunIn (empty config) other,
      begun.transport ≠ .playing → begun.nextFrame = (.silence, begun) := by
  intro s s'
  have new := inOrder_empty config
  obtain ⟨happen, matched⟩ := Matched.interjected h ⟨.refl _, new, new⟩
  refine ⟨happen, matched.alike, matched.alike.eq matched.inOrder matched.inOrder', ?_⟩
  exact fun begun _ held => nextFrame_of_not_playing held

theorem controls_leave_no_trace_fadingNote :
    let new := empty { sampleRate := 100 }
    let s := new.after [.load .fadingNote, .play, .render 12]
    let s' := new.after [.load .fadingNote, .play, .setTrackMuted 0 true, .render 3,
      .pause .sustain, .setVolume ⟨64, by decide⟩, .render 5, .play, .render 4,
      .setTrackMuted 0 false, .setVolume .unity, .render 5]
    s.pool.activeCount = 1 ∧ s' = s := by
  intro new s s'
  have mixing : s'.mixing = s.mixing := by decide +kernel
  -- twelve frames, cut into three, nine, and the nine into four and five
  have interjected : Interjected new [.load .fadingNote, .play, .render (3 + 9)]
      [.load .fadingNote, .play, .setTrackMuted 0 true, .render 3,
        .pause .sustain, .setVolume ⟨64, by decide⟩, .render 5, .play, .render 4,
        .setTrackMuted 0 false, .setVolume .unity, .render 5] := by
    refine .ask _ (.ask _ (.mute 0 true (.cutRender 3 9 (.ask _ ?_))))
    refine .hold (by decide +kernel) [.setVolume ⟨64, by decide⟩, .render 5] ?_ ?_
    · intro r hr
      rcases List.mem_pair.mp hr with rfl | rfl
      · exact trivial
      · exact trivial
    · exact .cutRender 4 5 (.ask _ (.mute 0 false (.volume .unity (.ask _ (.nil _)))))
  obtain ⟨-, -, same, -⟩ := controls_leave_no_trace interjected
  exact ⟨by decide +kernel, same mixing⟩

end Sequencer
end Chiptune
