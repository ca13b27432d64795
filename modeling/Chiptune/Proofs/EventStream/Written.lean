import Chiptune.Proofs.EventStream.Soundness
import Chiptune.Proofs.Playhead.Phrase

/-!
# Commands that are written out

What stands in a stream of M4A or MLSS depends on the status in two ways only. Running status may
leave out an opcode of M4A, and a note may leave out its key and how loud it is. Where the opcode is
there, a place therefore always holds the same command of the same length, but for those two numbers
of a note (`EventStream.Writes.decode`).

A `Passage` is a part of a stream that is made of such commands, and of calls of bodies that are
passages too. Nothing in it goes back, so it leads from its start to its stop, past offsets that are
known beforehand.
-/

namespace Chiptune

/-- The same command, but that a note may have another key and another velocity. -/
def Command.Alike : Command → Command → Prop
  | .noteOn _ _ duration, .noteOn _ _ duration' => duration = duration'
  | c, c' => c = c'

theorem Command.Alike.refl (c : Command) : c.Alike c := by cases c <;> rfl

/-- A note is simple whatever its key, so likeness does not change what is simple. -/
theorem Command.Alike.isSimple {c c' : Command} (alike : c.Alike c') (simple : c.IsSimple) :
    c'.IsSimple := by
  cases c with
  | noteOn =>
    cases c' with
    | noteOn => trivial
    | _ => cases alike
  | _ =>
    cases alike
    exact simple

/-- Of commands that are not simple, which notes are, only the same one is alike. -/
theorem Command.Alike.eq {c c' : Command} (alike : c.Alike c') (complex : ¬ c.IsSimple) :
    c' = c := by
  cases c with
  | noteOn => exact absurd trivial complex
  | _ => exact alike.symm

/-! ## Decoders

Two decodings of one place with two statuses are compared. Their commands are the same except for
the key and the velocity of a note, and of their lengths there is only one. -/

/-- The status makes no difference to what stands there, but for the key and velocity of a note. -/
def Decoder.AlikeAt (d : Decoder) (s : EventStream) (place : Nat) : Prop :=
  ∀ {status : Status} {c : Command} {after : Nat}, (d status s place).2 = .ok (c, after) →
    ∀ status', ∃ c', (d status' s place).2 = .ok (c', after) ∧ c.Alike c'

theorem Decoder.alikeAt_plain (r : Reading Command) (s : EventStream) (place : Nat) :
    (plain r).AlikeAt s place :=
  fun {_ c _} e _ => ⟨c, e, .refl c⟩

namespace EventStream

variable {s : EventStream} {place length : Nat} {c : Command} {driver : SoundDriver}

/-- The end of a note does not look at the status. -/
theorem M4a.alikeAt_noteEnd (s : EventStream) (place : Nat) : M4a.noteEnd.AlikeAt s place :=
  fun {_ c _} e _ => ⟨c, e, .refl c⟩

/-- The status lends a note of M4A its key and its velocity. -/
theorem M4a.alikeAt_note (duration : Option Nat) (s : EventStream) (place : Nat) :
    (M4a.note duration).AlikeAt s place := by
  intro status c after e status'
  cases e
  exact ⟨_, rfl, rfl⟩

/-- An opcode means the same in whatever status, and only the status that it leaves may differ. -/
theorem M4a.alikeAt_perform (op : UInt8) (s : EventStream) (place : Nat) :
    (M4a.perform op).AlikeAt s place := by
  unfold M4a.perform
  repeat' split
  · exact Decoder.alikeAt_plain _ s place
  · exact M4a.alikeAt_noteEnd s place
  · exact M4a.alikeAt_note _ s place
  · exact M4a.alikeAt_note _ s place

/-- An opcode of M4A that is written out is not a repeated one. -/
theorem M4a.alikeAt_decoder {op : UInt8} (found : s.bytes[place]? = some op) (written : 0x80 ≤ op) :
    M4a.decoder.AlikeAt s place := by
  have performs : ∀ status, M4a.decoder status s place =
      M4a.perform op (M4a.Status.remember status op) s (place + 1) := by
    intro status
    simp only [M4a.decoder, found, if_pos written]
  intro status c after e status'
  rw [performs] at e ⊢
  exact M4a.alikeAt_perform op s _ e _

/-- The key is written in the opcode here. The velocity is the one of the status. -/
theorem Mlss.alikeAt_note (key : Nat) (s : EventStream) (place : Nat) :
    (Mlss.note key).AlikeAt s place := by
  intro status c after e status'
  unfold Mlss.note Decoder.updating at e ⊢
  split at e
  · cases e
    exact ⟨_, rfl, rfl⟩
  · cases e

/-- MLSS has no running status at all. -/
theorem Mlss.alikeAt_decoder (s : EventStream) (place : Nat) : Mlss.decoder.AlikeAt s place := by
  intro status c after e status'
  unfold Mlss.decoder Decoder.byOpcode at e ⊢
  cases found : s.bytes[place]? with
  | none => simp only [found] at e; cases e
  | some op =>
    simp only [found] at e ⊢
    split at e
    · next note =>
      rw [if_pos note]
      exact Mlss.alikeAt_note _ s _ e _
    · next other =>
      rw [if_neg other]
      exact Decoder.alikeAt_plain _ s _ e _

/-! ## Written commands

A command is written out at a place if it is decoded there with some status, by an opcode that
stands there itself. Then it is decoded there with every other status, up to likeness. -/

/-- The command stands there, with its opcode, and takes `length` bytes. -/
structure Writes (driver : SoundDriver) (s : EventStream) (place : Nat) (c : Command)
    (length : Nat) : Prop where
  /-- Only streams of M4A can leave an opcode out. -/
  opcode : driver = .m4a → ∃ op, s.bytes[place]? = some op ∧ 0x80 ≤ op
  decode_eq : (s.decode driver place {}).2 = .ok ⟨c, length⟩

/-- A command that is written out is found with any status. -/
theorem Writes.decode (writes : s.Writes driver place c length)
    (hdriver : driver = .m4a ∨ driver = .mlss) (status : Status) :
    ∃ c', (s.decode driver place status).2 = .ok ⟨c', length⟩ ∧ c.Alike c' := by
  have alike : driver.decoder.AlikeAt s place := by
    rcases hdriver with rfl | rfl
    · obtain ⟨op, found, written⟩ := writes.opcode rfl
      exact M4a.alikeAt_decoder found written
    · exact Mlss.alikeAt_decoder s place
  have e := writes.decode_eq
  unfold EventStream.decode at e ⊢
  rw [decodeWith_snd] at e ⊢
  split at e
  · next found =>
    cases e
    obtain ⟨c', hc', halike⟩ := alike found status
    rw [hc']
    exact ⟨c', rfl, halike⟩
  · cases e

/-! ## Passages

Simple commands one behind the other, as they stand between two places that matter to a proof. -/

/-- Commands that follow one another from `start` to `stop`, none of which goes back or ends the
stream, and calls of bodies of such commands. At most `room` of the calls are open at once. The
commands stand at these offsets, in the order in which they are run. -/
inductive Passage (driver : SoundDriver) (s : EventStream) :
    (room start stop : Nat) → (offsets : List Nat) → Prop
  | nil {room place : Nat} : Passage driver s room place place []
  | command {room place length stop : Nat} {c : Command} {offsets : List Nat} (simple : c.IsSimple)
      (writes : s.Writes driver place c length)
      (onward : Passage driver s room (place + length) stop offsets) :
      Passage driver s room place stop (place :: offsets)
  /-- A call of one pass leads to a passage somewhere else, with the end of a body behind it, and
  comes back. -/
  | call {room place target length inner closing stop : Nat} {body offsets : List Nat}
      (calls : s.Writes driver place (.call target (some 1)) length)
      (called : Passage driver s room target inner body)
      (returns : s.Writes driver inner .endCall closing)
      (onward : Passage driver s (room + 1) (place + length) stop offsets) :
      Passage driver s (room + 1) place stop (place :: body ++ inner :: offsets)

end EventStream
end Chiptune
