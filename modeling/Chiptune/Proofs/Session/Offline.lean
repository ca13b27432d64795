import Chiptune.Offline
import Chiptune.Proofs.Sequencer.Frames
import Chiptune.Proofs.Sequencer.FreshStart
import Chiptune.Proofs.Session.Delivery
import Mathlib.Order.Nat

/-!
# Offline and live

Live, the host of a session takes as much sound at a time as it likes, as frames or as rows of
levels. Offline, a song is rendered in blocks of one size, and only between two blocks there is a
look at whether it still plays. Both take the frames of one stream, `Sequencer.firstFrames`. What a
session gives depends on nothing but how many frames were asked for before (`Session.sounds_eq`),
and a rendering in blocks is the beginning of the stream up to where its last block ends
(`Sequencer.exists_blockEnd`). So the frames of a song that is rendered offline are those that are
heard live (`Offline.render_eq_live`).
-/

namespace Chiptune

/-! ## Rows of levels

A host that asks for a row of levels gets the same frames, left before right. A row of odd length
has one level more than its frames have. -/

/-- The frames in a row of levels. A last level that has no partner belongs to none. -/
def framesOfRow : List Int16 → List Frame
  | left :: right :: row => ⟨left, right⟩ :: framesOfRow row
  | _ => []

theorem framesOfRow_pairs (frames : List Frame) {rest : List Int16} (short : rest.length < 2) :
    framesOfRow (frames.flatMap (fun f => [f.left, f.right]) ++ rest) = frames := by
  induction frames with
  | nil =>
    match rest, short with
    | [], _ => rfl
    | [_], _ => rfl
  | cons f frames ih => exact congrArg (f :: ·) ih

/-- The frames can be read back from the row that was made of them. -/
theorem framesOfRow_interleave (length : Nat) (frames : Array Frame) :
    framesOfRow (interleave length frames).toList = frames.toList := by
  have pairs (row : Array Int16) (l : List Frame) :
      (l.foldl (fun row f => (row.push f.left).push f.right) row).toList =
        row.toList ++ l.flatMap (fun f => [f.left, f.right]) := by
    induction l generalizing row with
    | nil => simp
    | cons f l ih => simp [ih]
  unfold interleave
  rw [← Array.foldl_toList]
  dsimp only
  split
  · rw [Array.toList_push, pairs, List.nil_append]
    exact framesOfRow_pairs _ (by simp)
  · rw [pairs, List.nil_append, ← List.append_nil (List.flatMap _ _)]
    exact framesOfRow_pairs _ (by simp)

/-! ## Live

Between renderings only notifications move, from the sequencer to the mailbox, and frames do not
depend on them. So any renderings give the beginning of one stream of frames. -/

theorem SongSource.loadInto_eq_ok_iff {source : SongSource} {index : Nat} {s s' : Sequencer} :
    source.loadInto index s = .ok s' ↔
      ∃ song, source.find index = .ok song ∧ s.load song = .ok s' := by
  unfold loadInto
  cases source.find index with
  | error e => simp [bind, Except.bind]
  | ok song =>
    cases h : s.load song <;> simp [bind, Except.bind, Except.mapError, h]

namespace Session

variable {σ : Type} {s s' : Session σ}

theorem loadSong_eq_ok_iff {index : Nat} :
    s.loadSong index = .ok s' ↔
      ∃ q, s.source.loadInto index s.sequencer = .ok q ∧ s' = { s with sequencer := q } := by
  unfold loadSong
  cases s.source.loadInto index s.sequencer <;>
    simp [bind, Except.bind, pure, Except.pure, eq_comm]

/-- The frames that a rendering asks for. -/
def Rendering.count : Rendering → Nat
  | frames count => count
  | interleaved length => length / 2

/-- The frames that some renderings ask for together. -/
def frameCount : List Rendering → Nat
  | [] => 0
  | r :: renderings => r.count + frameCount renderings

/-- The frames that a rendering gives. -/
def sound (s : Session σ) : Rendering → List Frame
  | .frames count => (s.renderFrames count).1.toList
  | .interleaved length => framesOfRow (s.renderInterleaved length).1.toList

/-- The frames that some renderings give, one after the other. -/
def sounds : (s : Session σ) → List Rendering → List Frame
  | _, [] => []
  | s, r :: renderings => s.sound r ++ (s.render r).sounds renderings

/-- The song plays after `count` more frames, whichever renderings give them. -/
def PlaysAfter (s : Session σ) (count : Nat) : Prop :=
  ∀ renderings : List Rendering, frameCount renderings = count →
    (renderings.foldl render s).sequencer.transport = .playing

theorem sound_eq (s : Session σ) (r : Rendering) :
    s.sound r = s.sequencer.firstFrames r.count := by
  cases r with
  | frames count => exact Sequencer.toList_render count s.sequencer
  | interleaved length =>
    rw [← Sequencer.toList_render]
    exact framesOfRow_interleave length _

/-- Sound moves the sequencer on as it does by itself, but for the notifications, which are
forwarded. -/
theorem twin_render (s : Session σ) (r : Rendering) :
    Sequencer.Twin (s.sequencer.answer (.render r.count)) (s.render r).sequencer := by
  have asked : r.request = .render r.count := by cases r <;> rfl
  rw [render_eq, asked]
  exact Sequencer.twin_drained _

theorem sounds_eq (renderings : List Rendering) (s : Session σ) :
    s.sounds renderings = s.sequencer.firstFrames (frameCount renderings) := by
  induction renderings generalizing s with
  | nil => rfl
  | cons r renderings ih =>
    rw [sounds, sound_eq, ih, (twin_render s r).firstFrames_eq, frameCount,
      Sequencer.firstFrames_add]

theorem transport_renderings (renderings : List Rendering) (s : Session σ) :
    (renderings.foldl render s).sequencer.transport =
      (s.sequencer.answer (.render (frameCount renderings))).transport := by
  induction renderings generalizing s with
  | nil => rfl
  | cons r renderings ih =>
    have twins := Sequencer.likeness_twin.answer (.render (frameCount renderings))
      (twin_render s r)
    rw [List.foldl_cons, ih, Sequencer.likeness_twin.transport_eq twins,
      ← Sequencer.answer_render_add, frameCount]

theorem playsAfter_iff {count : Nat} :
    s.PlaysAfter count ↔ (s.sequencer.answer (.render count)).transport = .playing := by
  constructor
  · intro plays
    exact plays [.frames count] rfl
  · rintro playing renderings rfl
    rw [transport_renderings]
    exact playing

theorem not_playsAfter_of_le {m n : Nat} (h : m ≤ n) (held : ¬ s.PlaysAfter m) :
    ¬ s.PlaysAfter n := by
  rw [playsAfter_iff] at held ⊢
  exact Sequencer.not_playing_of_le h held

end Session

/-! ## In blocks

Offline, a block is rendered as a whole and the transport is looked at between blocks. `IsLength`
says where that ends, in terms of what happens live. -/

namespace Sequencer

variable {s : Sequencer} {block limit count : Nat}

/-- Where a rendering in blocks ends. -/
structure BlockEnd (s : Sequencer) (block limit count : Nat) : Prop where
  count_le : count ≤ limit
  /-- Either there are as many frames as there may be, or the song does not play after the last
  block. -/
  ends : count = limit ∨ block ∣ count ∧ (s.answer (.render count)).transport ≠ .playing
  /-- The song plays before each block. -/
  playing {m : Nat} : m < count → block ∣ m → (s.answer (.render m)).transport = .playing

/-- A block that comes to the limit is the only one. -/
theorem BlockEnd.short (short : limit ≤ block) (playing : s.transport = .playing) :
    s.BlockEnd block limit limit where
  count_le := Nat.le_refl limit
  ends := .inl rfl
  playing {m} lt blocks := by
    obtain rfl := Nat.eq_zero_of_dvd_of_lt blocks (Nat.lt_of_lt_of_le lt short)
    exact playing

/-- After a whole block, everything is as it was, but for the number of frames. -/
theorem BlockEnd.whole (whole : block ≤ limit) (playing : s.transport = .playing)
    (rest : (s.answer (.render block)).BlockEnd block (limit - block) count) :
    s.BlockEnd block limit (block + count) where
  count_le := by
    have := rest.count_le
    omega
  ends := by
    rcases rest.ends with rfl | ⟨blocks, held⟩
    · left
      omega
    · right
      rw [answer_render_add]
      exact ⟨Nat.dvd_add_right (Nat.dvd_refl block) |>.mpr blocks, held⟩
  playing {m} lt blocks := by
    -- a multiple of the block is none at all, or comes after the first one
    obtain rfl | ⟨k, rfl⟩ : m = 0 ∨ ∃ k, m = block + k := by
      rcases Nat.lt_or_ge m block with less | le
      · exact .inl (Nat.eq_zero_of_dvd_of_lt blocks less)
      · exact .inr (Nat.exists_eq_add_of_le le)
    · exact playing
    · rw [answer_render_add]
      exact rest.playing (Nat.lt_of_add_lt_add_left lt)
        ((Nat.dvd_add_right (Nat.dvd_refl block)).mp blocks)

/-- A rendering in blocks gives the beginning of the stream. -/
theorem exists_blockEnd (nonempty : 0 < block) (limit : Nat) (frames : Array Frame)
    (s : Sequencer) :
    ∃ count, s.BlockEnd block limit count ∧
      (s.renderBlocks block limit frames).1.toList = frames.toList ++ s.firstFrames count := by
  fun_induction renderBlocks block limit frames s with
  | case1 limit frames s h count frames' s' rendered ih =>
    obtain ⟨more, rest, sound⟩ := ih
    have first : frames' = (s.renderOnto count frames).1 := by rw [rendered]
    have later : s' = s.answer (.render count) := by
      rw [answer_render, ← renderOnto_snd count frames, rendered]
    have whole : frames'.toList ++ s'.firstFrames more =
        frames.toList ++ s.firstFrames (count + more) := by
      rw [first, later, toList_renderOnto, List.append_assoc, ← firstFrames_add]
    refine ⟨count + more, ?_, sound.trans whole⟩
    have counted : count = min limit block := by simp [count, Nat.max_eq_right nonempty]
    rw [later] at rest
    -- the last block is cut short by the limit, the others are whole
    rcases Nat.le_total limit block with short | long
    · rw [counted, Nat.min_eq_left short] at rest ⊢
      have none : more = 0 := by
        have := rest.count_le
        omega
      subst none
      exact .short short h.2
    · rw [counted, Nat.min_eq_right long] at rest ⊢
      exact .whole long h.2 rest
  | case2 limit frames s h =>
    have ends : limit = 0 ∨ s.transport ≠ .playing := by
      rcases Nat.eq_zero_or_pos limit with zero | positive
      · exact .inl zero
      · exact .inr fun playing => h ⟨positive, playing⟩
    refine ⟨0, ⟨Nat.zero_le _, ?_, fun lt => absurd lt (Nat.not_lt_zero _)⟩, by simp [firstFrames]⟩
    exact ends.imp Eq.symm fun held => ⟨Nat.dvd_zero _, held⟩

end Sequencer

namespace Offline

variable {σ : Type} {live : Session σ} {limit count : Nat}

/-- How many frames of a song are rendered offline, by what happens live. -/
inductive IsLength (live : Session σ) (limit : Nat) : Nat → Prop
  /-- The song still plays when its time is over. -/
  | timeOver (playing : live.PlaysAfter limit) : IsLength live limit limit
  /-- The song stops with frame `d`, and the block of that frame ends with frame `m`. -/
  | stopped {d m : Nat} (late : ¬ live.PlaysAfter limit)
      (stop : IsLeast {n | ¬ live.PlaysAfter n} d)
      (block : IsLeast {n | d ≤ n ∧ blockSize ∣ n} m) : IsLength live limit (min limit m)

theorem IsLength.count_le (h : IsLength live limit count) : count ≤ limit := by
  cases h with
  | timeOver => exact Nat.le_refl _
  | stopped => exact Nat.min_le_left _ _

theorem isLength_of_blockEnd (h : live.sequencer.BlockEnd blockSize limit count) :
    IsLength live limit count := by
  classical
  by_cases playing : live.PlaysAfter limit
  · have all : count = limit := by
      rcases h.ends with all | ⟨-, held⟩
      · exact all
      · exact absurd playing (Session.not_playsAfter_of_le h.count_le fun plays =>
          held (Session.playsAfter_iff.mp plays))
    rw [all]
    exact .timeOver playing
  · have stops : ∃ d, ¬ live.PlaysAfter d := ⟨limit, playing⟩
    obtain ⟨d, stop⟩ : ∃ d, IsLeast {n | ¬ live.PlaysAfter n} d := ⟨_, Nat.isLeast_find stops⟩
    have blocks : ∃ n, d ≤ n ∧ blockSize ∣ n :=
      ⟨blockSize * d, Nat.le_mul_of_pos_left d (by decide), Nat.dvd_mul_right ..⟩
    obtain ⟨m, block⟩ : ∃ m, IsLeast {n | d ≤ n ∧ blockSize ∣ n} m := ⟨_, Nat.isLeast_find blocks⟩
    -- the song does not play before a block that begins at `m`, so there is none
    have last : count ≤ m := by
      by_contra more
      have before := h.playing (Nat.lt_of_not_le more) block.1.2
      exact Session.not_playsAfter_of_le block.1.1 stop.1 (Session.playsAfter_iff.mpr before)
    have length : count = min limit m := by
      rcases h.ends with rfl | ⟨whole, held⟩
      · exact (Nat.min_eq_left last).symm
      · have past : d ≤ count := stop.2 fun plays => held (Session.playsAfter_iff.mp plays)
        have first : m ≤ count := block.2 ⟨past, whole⟩
        have := h.count_le
        omega
    rw [length]
    exact .stopped playing stop block

/-- A song that could be loaded plays when it is asked to. -/
theorem playing_of_loadInto {source : SongSource} {index : Nat} {config : Config} {s : Sequencer}
    (loaded : source.loadInto index (.empty config) = .ok s) : s.play.transport = .playing := by
  obtain ⟨song, -, accepted⟩ := SongSource.loadInto_eq_ok_iff.mp loaded
  obtain ⟨playable, rfl⟩ := Sequencer.load_eq_ok_iff.mp accepted
  have played : ((Sequencer.empty config).withSong song).play = .playing config song := by
    rw [Sequencer.playing, Sequencer.after_cons, Sequencer.answer_load, if_pos playable]
    rfl
  rw [played]
  exact congrArg Score.transport (Sequencer.score_playing config playable)

/-- A song that is rendered offline is what a session gives that loads and plays it, in renderings
of any kinds and sizes: the same frames, until its time is over or until the end of the block in
which it stops. -/
theorem render_eq_live (source : SongSource) (index : Nat) (config : Config) (seconds : Nat)
    {s : Session σ} (loaded : (Session.start source config).loadSong index = .ok s) :
    let live := s.control (·.play)
    live.PlaysAfter 0 ∧
    ∃ frames, render source index config seconds = .ok frames ∧
      IsLength live (config.sampleRate * seconds) frames.size ∧
      ∀ renderings, frames.size ≤ (live.sounds renderings).length →
        frames.toList = (live.sounds renderings).take frames.size := by
  intro live
  obtain ⟨q, found, rfl⟩ := Session.loadSong_eq_ok_iff.mp loaded
  have loading : source.loadInto index (.empty config) = .ok q := found
  obtain ⟨count, ends, sound⟩ := Sequencer.exists_blockEnd (show 0 < blockSize by decide)
    (config.sampleRate * seconds) #[] q.play
  let frames := (q.play.renderBlocks blockSize (config.sampleRate * seconds) #[]).1
  have size : frames.size = count := by
    rw [← Array.length_toList, sound]
    simp
  refine ⟨Session.playsAfter_iff.mpr (playing_of_loadInto loading), frames, ?_, ?_, ?_⟩
  · rw [render, loading]
    rfl
  · rw [size]
    exact isLength_of_blockEnd ends
  -- frames can be asked for in any portions; the first ones are the same
  · intro renderings enough
    rw [Session.sounds_eq, Sequencer.length_firstFrames] at enough
    rw [Session.sounds_eq, Sequencer.take_firstFrames enough, size]
    exact sound

theorem render_eq_live_oneNote :
    let config : Config := { sampleRate := 100 }
    let source : SongSource := .ofArray #[.oneNote]
    ∃ live : Session Unit, live.sequencer.transport = .playing ∧
      ∃ frames, render source 0 config 1 = .ok frames ∧ IsLength live 100 frames.size ∧
        frames.toList =
          (live.sounds [.frames 30, .interleaved 50, .frames 60]).take frames.size := by
  intro config source
  let s : Session Unit :=
    { source, sequencer := (Sequencer.empty config).withSong .oneNote }
  have loaded : (Session.start source config).loadSong 0 = .ok s := rfl
  obtain ⟨playing, frames, rendered, length, same⟩ := render_eq_live source 0 config 1 loaded
  refine ⟨s.control (·.play), playing [] rfl, frames, rendered, length, same _ ?_⟩
  rw [Session.sounds_eq, Sequencer.length_firstFrames]
  exact Nat.le_trans length.count_le (by decide)

end Offline
end Chiptune
