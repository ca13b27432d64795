import Chiptune.EventStream.Decode

/-!
# What each driver can say

All drivers decode into one vocabulary of commands, but none of them uses all of it. Only DSE names
loop points, and it has nothing else to go back with: no jumps, calls or loops.
`SoundDriver.Speaks` tells which commands a driver knows, and `EventStream.decode_speaks` that it
never decodes another.

The opcode tables are read as they are written: `Reading.Yields` follows the steps of a reading to
the commands at its end.
-/

namespace Chiptune

/-- The command belongs to the vocabulary of the driver. -/
def SoundDriver.Speaks (driver : SoundDriver) : Command → Prop
  | .jump _ => driver ≠ .dse
  | .endCall => driver ≠ .dse
  | .bendRange _ => driver ≠ .dse
  | .call _ _ => driver = .m4a ∨ driver = .sdat
  | .transpose _ => driver = .m4a ∨ driver = .sdat
  | .again _ _ => driver = .m4a ∨ driver = .mlss
  | .expression _ => driver = .dse ∨ driver = .sdat
  | .openLoop _ => driver = .sdat
  | .closeLoop => driver = .sdat
  | .envelope _ _ => driver = .sdat
  | .noteOff _ => driver = .m4a
  | .loopPoint => driver = .dse
  | _ => True

instance (driver : SoundDriver) (c : Command) : Decidable (driver.Speaks c) := by
  unfold SoundDriver.Speaks
  split <;> infer_instance

/-! ## What a reading yields

Nothing is asked here of places and of ranges: only which commands can come out, whatever the bytes.
-/

namespace Reading

variable {α β : Type} {P : α → Prop} {Q : β → Prop}

/-- Whatever the reading yields has the property. -/
def Yields (r : Reading α) (P : α → Prop) : Prop :=
  ∀ {s : EventStream} {place : Nat} {a : α} {after : Nat}, r s place = .ok (a, after) → P a

@[simp] theorem yields_pure {a : α} : (pure a : Reading α).Yields P ↔ P a := by
  constructor
  · exact fun h => @h default 0 a 0 rfl
  · intro h s place b after e
    cases e
    exact h

/-- What is read on the way to the command does not matter. -/
theorem yields_bind {r : Reading α} {next : α → Reading β} (h : ∀ a, (next a).Yields Q) :
    (r >>= next).Yields Q := by
  intro s place b after e
  rw [bind_apply] at e
  split at e
  · exact h _ e
  · cases e

@[simp] theorem yields_fail (d : Defect) : (fail d : Reading α).Yields P := by
  intro s place a after e
  cases e

end Reading

namespace Decoder

variable {P : Command → Prop}

/-- Whatever the decoder decodes has the property. -/
def Yields (d : Decoder) (P : Command → Prop) : Prop :=
  ∀ {status : Status} {s : EventStream} {place : Nat} {c : Command} {after : Nat},
    (d status s place).2 = .ok (c, after) → P c

theorem yields_plain {r : Reading Command} (h : r.Yields P) : (plain r).Yields P := h

/-- Neither does the status that it was made with. -/
theorem yields_updating {α : Type} {r : Reading α} {next : Status → α → Status × Command}
    (h : ∀ status a, P (next status a).2) : (updating r next).Yields P := by
  intro status s place c after e
  unfold updating at e
  split at e
  · cases e
    exact h status _
  · cases e

/-- A table of opcodes yields what its decoders yield. -/
theorem yields_byOpcode {table : UInt8 → Decoder} (h : ∀ op, (table op).Yields P) :
    (byOpcode table).Yields P := by
  intro status s place c after e
  unfold byOpcode at e
  split at e
  · exact h _ e
  · cases e

end Decoder

namespace EventStream

/-! ## The opcode tables

Each table is gone through once, and the commands in it are compared with those that `Speaks`
allows. -/

-- Each line of a table is followed through its arguments to the command at its end.

theorem M4a.yields_plain (op : UInt8) : (M4a.plain op).Yields SoundDriver.m4a.Speaks := by
  unfold M4a.plain
  repeat' first | split | refine Reading.yields_bind fun _ => ?_
  all_goals simp [SoundDriver.Speaks]

theorem Mlss.yields_plain (op : UInt8) : (Mlss.plain op).Yields SoundDriver.mlss.Speaks := by
  unfold Mlss.plain
  repeat' first | split | refine Reading.yields_bind fun _ => ?_
  all_goals simp [SoundDriver.Speaks]

theorem Dse.yields_plain (op : UInt8) : (Dse.plain op).Yields SoundDriver.dse.Speaks := by
  unfold Dse.plain
  repeat' first | split | refine Reading.yields_bind fun _ => ?_
  all_goals simp [SoundDriver.Speaks]

theorem Sdat.yields_plain (op : UInt8) : (Sdat.plain op).Yields SoundDriver.sdat.Speaks := by
  unfold Sdat.plain
  repeat' first | split | refine Reading.yields_bind fun _ => ?_
  all_goals simp [SoundDriver.Speaks]

/-- Running status repeats an opcode of the same table, so nothing new can be said with it. -/
theorem M4a.yields_decoder : M4a.decoder.Yields SoundDriver.m4a.Speaks := by
  have hnote : ∀ duration, (M4a.note duration).Yields SoundDriver.m4a.Speaks := by
    intro duration status s place c after e
    cases e
    trivial
  have hperform : ∀ op, (M4a.perform op).Yields SoundDriver.m4a.Speaks := by
    intro op
    unfold M4a.perform
    repeat' split
    · exact Decoder.yields_plain (M4a.yields_plain op)
    · intro status s place c after e
      cases e
      rfl
    · exact hnote _
    · exact hnote _
  intro status s place c after e
  -- the opcode is written out, or it is the last one, or there is an error
  unfold M4a.decoder at e
  repeat' split at e
  · cases e
  · exact hperform _ e
  · exact hperform _ e
  · cases e

/-- Notes are all that MLSS says outside its table. -/
theorem Mlss.yields_decoder : Mlss.decoder.Yields SoundDriver.mlss.Speaks := by
  refine Decoder.yields_byOpcode fun op => ?_
  split
  · exact Decoder.yields_updating fun _ _ => trivial
  · exact Decoder.yields_plain (Mlss.yields_plain op)

/-- What the SDAT decoder reads belongs to the vocabulary of SDAT. -/
theorem Sdat.yields_decoder : Sdat.decoder.Yields SoundDriver.sdat.Speaks := by
  refine Decoder.yields_byOpcode fun op => ?_
  split
  · exact Decoder.yields_updating fun _ _ => trivial
  · exact Decoder.yields_plain (Sdat.yields_plain op)

/-- A note of DSE that is cut off is an error, and otherwise a note. -/
theorem Dse.yields_note (velocity : Nat) : (Dse.note velocity).Yields SoundDriver.dse.Speaks := by
  intro status s place c after e
  unfold Dse.note at e
  split at e
  · cases e
  · exact Decoder.yields_updating (fun _ _ => trivial) e

/-- Rests, octaves and notes change the status, the rest of the table is plain. -/
theorem Dse.yields_decoder : Dse.decoder.Yields SoundDriver.dse.Speaks := by
  refine Decoder.yields_byOpcode fun op => ?_
  unfold Dse.perform
  split
  · exact Dse.yields_note _
  · split
    · exact Decoder.yields_updating fun _ _ => trivial
    · split
      case h_9 => exact Decoder.yields_plain (Dse.yields_plain _)
      all_goals exact Decoder.yields_updating fun _ _ => trivial

/-- A driver decodes nothing but what belongs to its vocabulary. -/
theorem decode_speaks {driver : SoundDriver} {s : EventStream} {cursor : Nat}
    {status status' : Status} {d : Decoded} (h : s.decode driver cursor status = (status', .ok d)) :
    driver.Speaks d.command := by
  have hdecoder : driver.decoder.Yields driver.Speaks := by
    cases driver with
    | m4a => exact M4a.yields_decoder
    | mlss => exact Mlss.yields_decoder
    | dse => exact Dse.yields_decoder
    | sdat => exact Sdat.yields_decoder
  unfold decode decodeWith at h
  split at h
  · next e =>
    cases h
    exact hdecoder (congrArg Prod.snd e)
  · cases h

end EventStream
end Chiptune
