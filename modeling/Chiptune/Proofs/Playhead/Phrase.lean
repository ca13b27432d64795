import Chiptune.EventStream.Decode

/-!
# Loops and calls as a tree

A stream of SDAT may open loops in place and call bodies that stand somewhere else, one inside the
other. A `Phrase` is such a text as a tree. `Phrase.expansion` writes it out as the simple commands
that it stands for, `Phrase.overflow?` finds the loop or call that is nested too deeply, and
`Phrase.IsAt` says where in a stream the commands of a phrase are found.
-/

namespace Chiptune

/-- The command lets the next one follow right behind it. -/
def Command.IsSimple : Command → Prop
  | jump _ => False
  | call _ _ => False
  | endCall => False
  | again _ _ => False
  | openLoop _ => False
  | closeLoop => False
  | finish => False
  | _ => True

instance : DecidablePred Command.IsSimple
  | .jump _ | .call _ _ | .endCall | .again _ _ | .openLoop _ | .closeLoop | .finish => .isFalse id
  | .noteOn _ _ _ | .noteOff _ | .program _ | .volume _ | .expression _ | .pan _ | .bend _
  | .bendRange _ | .transpose _ | .tempo _ | .wait _ | .loopPoint | .envelope _ _ | .nop =>
    .isTrue trivial

/-! ## Phrases

The tree, what it stands for, and how deep it is. A loop without a number of passes is not among
them, since it has no end. -/

/-- Simple commands with loops and calls among them. Each loop and call keeps the offset of the
command that opens it. -/
inductive Phrase
  | nil
  | command (c : Command) (rest : Phrase)
  | loop (offset passes : Nat) (body rest : Phrase)
  | call (offset : Nat) (body rest : Phrase)

namespace Phrase

/-- The commands that a phrase stands for: the body of each loop as often as it is passed, and the
body of each call in place of the call. -/
def expansion : Phrase → List Command
  | nil => []
  | command c rest => c :: rest.expansion
  | loop _ passes body rest => (List.replicate passes body.expansion).flatten ++ rest.expansion
  | call _ body rest => body.expansion ++ rest.expansion

/-- The most loops and calls that are open at once. -/
def depth : Phrase → Nat
  | nil => 0
  | command _ rest => rest.depth
  | loop _ _ body rest => max (body.depth + 1) rest.depth
  | call _ body rest => max (body.depth + 1) rest.depth

/-- The first loop or call that is one too many where no more than `room` may be open, with the
simple commands that come before it. -/
def overflow? : Phrase → (room : Nat) → Option (List Command × Nat)
  | nil, _ => none
  | command c rest, room => (rest.overflow? room).map (Prod.map (c :: ·) id)
  | loop offset _ _ _, 0 => some ([], offset)
  | loop _ passes body rest, room + 1 =>
    (body.overflow? room).or
      ((rest.overflow? (room + 1)).map
        (Prod.map ((List.replicate passes body.expansion).flatten ++ ·) id))
  | call offset _ _, 0 => some ([], offset)
  | call _ body rest, room + 1 =>
    (body.overflow? room).or
      ((rest.overflow? (room + 1)).map (Prod.map (body.expansion ++ ·) id))

/-- Nothing is too many exactly if there is room for the depth. -/
theorem overflow?_eq_none_iff (p : Phrase) (room : Nat) :
    p.overflow? room = none ↔ p.depth ≤ room := by
  induction p generalizing room with
  | nil => simp [overflow?, depth]
  | command c rest ih => simp [overflow?, depth, ih]
  | loop offset passes body rest ihBody ihRest =>
    cases room with
    | zero => simp [overflow?, depth]
    | succ room =>
      simp only [overflow?, depth, Option.or_eq_none_iff, Option.map_eq_none_iff, ihBody, ihRest]
      omega
  | call offset body rest ihBody ihRest =>
    cases room with
    | zero => simp [overflow?, depth]
    | succ room =>
      simp only [overflow?, depth, Option.or_eq_none_iff, Option.map_eq_none_iff, ihBody, ihRest]
      omega

end Phrase

/-! ## Where a phrase is found

A phrase stands in a stream if its commands stand there, each behind the one before. Bodies of calls
stand somewhere else, and any number of calls may share one. -/

/-- The command stands there in a stream of SDAT, and takes `length` bytes. -/
def EventStream.Has (s : EventStream) (place : Nat) (c : Command) (length : Nat) : Prop :=
  (s.decode .sdat place {}).2 = .ok ⟨c, length⟩

/-- A loop or a call is opened there. -/
def EventStream.OpensAt (s : EventStream) (place : Nat) : Prop :=
  ∃ c length, s.Has place c length ∧
    ((∃ passes, c = .openLoop passes) ∨ ∃ target passes, c = .call target passes)

/-- The stream is over there. -/
def EventStream.EndsAt (s : EventStream) (place : Nat) : Prop :=
  s.bytes.size ≤ place ∨ ∃ length, s.Has place .finish length

namespace EventStream

variable {s : EventStream} {place length : Nat} {c : Command}

theorem decodeWith_snd (table : Decoder) (s : EventStream) (place : Nat) (status : Status) :
    (s.decodeWith table place status).2 =
      match (table status s place).2 with
      | .ok (command, after) => .ok ⟨command, after - place⟩
      | .error d => .error (d.at place) := by
  unfold decodeWith
  split
  · next h => rw [h]
  · next h => rw [h]

/-- What stands in a stream of SDAT does not depend on what was read before. -/
theorem decode_sdat_snd (s : EventStream) (place : Nat) (status : Status) :
    (s.decode .sdat place status).2 = (s.decode .sdat place {}).2 := by
  have htable : (Sdat.decoder status s place).2 = (Sdat.decoder {} s place).2 := by
    unfold Sdat.decoder Decoder.byOpcode
    cases s.bytes[place]? with
    | none => rfl
    | some op =>
      dsimp only
      split
      · unfold Sdat.note Decoder.updating
        dsimp only
        split <;> rfl
      · rfl
  unfold decode
  simp only [decodeWith_snd, SoundDriver.decoder, htable]

theorem Has.lt_size (has : s.Has place c length) : place < s.bytes.size := by
  apply Nat.lt_of_not_le
  intro beyond
  have hnone : s.bytes[place]? = none := getElem?_neg s.bytes place (Nat.not_lt.mpr beyond)
  unfold Has decode at has
  simp only [decodeWith_snd, SoundDriver.decoder, Sdat.decoder, Decoder.byOpcode, hnone] at has
  cases has

end EventStream

/-- The phrase stands in a stream of SDAT between two places. Of loops and calls beyond `room` only
the opening has to be there, because it is not passed. -/
inductive Phrase.IsAt (s : EventStream) : (room : Nat) → Phrase → (start stop : Nat) → Prop
  | nil {room place : Nat} : IsAt s room .nil place place
  | command {room place length stop : Nat} {c : Command} {rest : Phrase} (simple : c.IsSimple)
      (has : s.Has place c length) (after : IsAt s room rest (place + length) stop) :
      IsAt s room (.command c rest) place stop
  /-- The body stands between its two ends, with room for one loop less. -/
  | loop {room place passes opening inner closing stop : Nat} {body rest : Phrase}
      (pos : 1 ≤ passes) (opens : s.Has place (.openLoop (some passes)) opening)
      (inside : IsAt s room body (place + opening) inner) (closes : s.Has inner .closeLoop closing)
      (after : IsAt s (room + 1) rest (inner + closing) stop) :
      IsAt s (room + 1) (.loop place passes body rest) place stop
  /-- The body stands wherever the call leads to. -/
  | call {room place target calling inner closing stop : Nat} {body rest : Phrase}
      (calls : s.Has place (.call target (some 1)) calling) (inside : IsAt s room body target inner)
      (closes : s.Has inner .endCall closing)
      (after : IsAt s (room + 1) rest (place + calling) stop) :
      IsAt s (room + 1) (.call place body rest) place stop
  /-- There is no room for the loop. What would stand in it does not matter. -/
  | loopBeyond {place passes opening stop : Nat} {body rest : Phrase}
      (opens : s.Has place (.openLoop (some passes)) opening) :
      IsAt s 0 (.loop place passes body rest) place stop
  /-- There is no room for the call. -/
  | callBeyond {place target calling stop : Nat} {body rest : Phrase}
      (calls : s.Has place (.call target (some 1)) calling) :
      IsAt s 0 (.call place body rest) place stop

end Chiptune
