import Chiptune.Proofs.EventStream.Range

/-!
# Decoding makes progress

A player that reads one command after the other has to be sure of more than numbers in range: each
command must take at least one byte, or it would be read for ever. An opcode that is written out is
such a byte. Under running status there may be none, and then it is an argument that is there
instead (`M4a.lt_of_perform`).

`EventStream.decode_sound` puts together all that a player relies on. What `decode_fits` says of a
command is completed here by the two numbers of seven bits that it leaves out: how loud a note is,
and which one ends.
-/

namespace Chiptune

/-- The numbers of seven bits that say how loud a note is and which one ends. -/
def Command.SevenBit : Command → Prop
  | .noteOn _ velocity _ => velocity ≤ 127
  | .noteOff (some key) => key ≤ 127
  | _ => True

/-- The numbers of the command are in range, for a stream of that many bytes. -/
def Command.InRange (size : Nat) (c : Command) : Prop := c.Fits size ∧ c.SevenBit

/-- What later commands may take from the status is in range. -/
structure Status.InRange (status : Status) : Prop extends status.Fits where
  lastVelocity_le : status.lastVelocity ≤ 127

/-! ## Progress

Most commands take at least the byte of their opcode. Under running status there is no such byte,
and then it is the argument that is taken. -/

namespace Reading

variable {α β : Type}

/-- The reading takes at least one byte. -/
def Advances (r : Reading α) : Prop :=
  ∀ (s : EventStream) (place : Nat) (a : α) (after : Nat),
    r s place = .ok (a, after) → place < after

/-- A field of a fixed width takes all its bytes. -/
theorem advances_fixed {width : Nat} (pos : 0 < width) (find : ByteArray → Nat → Option α) :
    (fixed width find).Advances := by
  intro s place a after e
  unfold fixed at e
  split at e
  · cases e
    exact Nat.lt_add_of_pos_right pos
  · cases e

/-- What is made of the number afterwards takes no more bytes. -/
theorem Advances.andPure {r : Reading α} (h : r.Advances) (f : α → β) :
    (r >>= fun a => pure (f a)).Advances := by
  intro s place b after e
  rw [bind_apply] at e
  split at e
  · next found =>
    cases e
    exact h _ _ _ _ found
  · cases e

theorem advances_unsigned : unsigned.Advances := (advances_fixed Nat.one_pos _).andPure _

theorem advances_signed : signed.Advances := (advances_fixed Nat.one_pos _).andPure _

theorem advances_sevenBit : sevenBit.Advances := advances_unsigned.andPure _

theorem advances_centred : centred.Advances := advances_sevenBit.andPure _

/-- Skipping takes the bytes, too, although nothing is made of them. -/
theorem advances_skip {width : Nat} (pos : 0 < width) : (skip width).Advances :=
  (advances_fixed pos _).andPure _

theorem advances_fail (d : Defect) : (fail d : Reading α).Advances := by
  intro s place a after e
  cases e

end Reading

/-- A command whose opcode is written out takes at least that byte. -/
theorem Decoder.lt_of_byOpcode {s : EventStream} {table : UInt8 → Decoder} {status : Status}
    {place after : Nat} {c : Command} (h : ∀ op, (table op).Ensures s) (hstatus : status.Fits)
    (e : (byOpcode table status s place).2 = .ok (c, after)) : place < after := by
  unfold byOpcode at e
  split at e
  · next op hop =>
    exact ((h op status (place + 1) hstatus (Bytes.lt_size_of_getElem? hop)).2 c after e).1.1
  · cases e

namespace EventStream

variable {s : EventStream} {status : Status} {place after : Nat} {c : Command}

/-- Where an argument stands, the list of them is not empty. -/
theorem length_arguments_pos {b : UInt8} (found : s.bytes[place]? = some b) (small : b < 128)
    (limit : Nat) : 0 < (s.arguments (limit + 1) place).length := by
  rw [arguments, found]
  dsimp only
  rw [if_pos small, List.length_cons]
  exact Nat.succ_pos _

/-- Every opcode that can be repeated, notes apart, takes an argument. -/
theorem M4a.advances_plain {op : UInt8} (repeats : M4a.Repeatable op) :
    (M4a.plain op).Advances := by
  unfold M4a.plain
  split
  case h_21 =>
    split
    · next ticks found =>
      -- there are not so many durations
      have bound : (op - M4a.firstWait).toNat < 49 := (Array.getElem?_eq_some_iff.mp found).1
      have first : M4a.firstWait ≤ op :=
        UInt8.le_trans (by decide : M4a.firstWait ≤ M4a.firstRepeatable) repeats
      have repeats : 0xBC ≤ op.toNat := repeats
      have wait : M4a.firstWait.toNat = 0x80 := rfl
      rw [UInt8.toNat_sub_of_le _ _ first] at bound
      omega
    · exact Reading.advances_fail _
  all_goals first
    | exact absurd repeats (by decide)
    | exact Reading.advances_unsigned.andPure _
    | exact Reading.advances_signed.andPure _
    | exact Reading.advances_sevenBit.andPure _
    | exact Reading.advances_centred.andPure _
    | exact (Reading.advances_skip (by decide)).andPure _

/-- Where an argument stands instead of an opcode, the opcode that it repeats takes it. -/
theorem M4a.lt_of_perform {op b : UInt8} (repeats : M4a.Repeatable op)
    (found : s.bytes[place]? = some b) (small : b < 128)
    (e : (M4a.perform op status s place).2 = .ok (c, after)) : place < after := by
  have forth : ∀ limit, place < place + (s.arguments (limit + 1) place).length := fun limit =>
    Nat.lt_add_of_pos_right (length_arguments_pos found small limit)
  unfold M4a.perform at e
  repeat' split at e
  · exact M4a.advances_plain repeats _ _ _ _ e
  · cases e
    exact forth 0
  · cases e
    exact forth 1
  · cases e
    split
    · exact forth 2
    · exact forth 1

/-- Only under running status is an argument needed to make progress. -/
theorem M4a.lt_of_decoder (hstatus : status.Fits)
    (e : (M4a.decoder status s place).2 = .ok (c, after)) : place < after := by
  unfold M4a.decoder at e
  split at e
  · cases e
  · next op hop =>
    have ensures : ∀ status : Status, status.Fits → (M4a.perform op status s (place + 1)).2 =
        .ok (c, after) → place + 1 ≤ after := by
      intro status hstatus e
      exact ((M4a.ensures_perform op status (place + 1) hstatus
        (Bytes.lt_size_of_getElem? hop)).2 c after e).1.1
    split at e
    · exact ensures _ (M4a.fits_remember hstatus op) e
    · next small =>
      split at e
      · next repeats => exact M4a.lt_of_perform repeats hop (UInt8.not_le.mp small) e
      · cases e

/-- A decoded command takes at least one byte. -/
theorem lt_of_decoder {driver : SoundDriver} (hstatus : status.Fits)
    (e : (driver.decoder status s place).2 = .ok (c, after)) : place < after := by
  cases driver with
  | m4a => exact M4a.lt_of_decoder hstatus e
  | mlss => exact Decoder.lt_of_byOpcode Mlss.ensures_perform hstatus e
  | dse => exact Decoder.lt_of_byOpcode Dse.ensures_perform hstatus e
  | sdat => exact Decoder.lt_of_byOpcode Sdat.ensures_perform hstatus e

end EventStream

/-! ## Numbers of seven bits

Velocities are small because each reader clamps them or takes them from an opcode that is small. The
last velocity is part of the status, and so the status has to be looked at as well. -/

namespace Decoder

variable {s : EventStream}

/-- The decoder keeps the last velocity in range, and decodes only such numbers of seven bits. -/
def StaysSevenBit (d : Decoder) (s : EventStream) : Prop :=
  ∀ status place, status.InRange → place ≤ s.bytes.size →
    (d status s place).1.lastVelocity ≤ 127 ∧
      ∀ c after, (d status s place).2 = .ok (c, after) → c.SevenBit

/-- A plain reading leaves the last velocity as it was. -/
theorem staysSevenBit_plain {r : Reading Command} (h : r.Yields Command.SevenBit) :
    (plain r).StaysSevenBit s :=
  fun _ _ hstatus _ => ⟨hstatus.lastVelocity_le, fun _ _ e => h e⟩

/-- What the reading ensures, `P`, is known of the numbers that make the command. -/
theorem staysSevenBit_updating {α : Type} {r : Reading α} {P : α → Prop}
    {next : Status → α → Status × Command} (h : r.Ensures s P)
    (h' : ∀ status a, status.InRange → P a →
      (next status a).1.lastVelocity ≤ 127 ∧ (next status a).2.SevenBit) :
    (updating r next).StaysSevenBit s := by
  intro status place hstatus inside
  unfold updating
  split
  · next a after found =>
    obtain ⟨hnext, hc⟩ := h' status a hstatus (h _ _ _ inside found).2
    refine ⟨hnext, fun c after' e => ?_⟩
    cases e
    exact hc
  · exact ⟨hstatus.lastVelocity_le, fun _ _ e => by cases e⟩

/-- A table of opcodes: what each of its decoders keeps is kept by the table. -/
theorem staysSevenBit_byOpcode {table : UInt8 → Decoder}
    (h : ∀ op, (table op).StaysSevenBit s) : (byOpcode table).StaysSevenBit s := by
  intro status place hstatus inside
  unfold byOpcode
  split
  · next op hop => exact h op status _ hstatus (Bytes.lt_size_of_getElem? hop)
  · exact ⟨hstatus.lastVelocity_le, fun _ _ e => by cases e⟩

end Decoder

namespace EventStream

variable {s : EventStream} {status : Status} {cursor : Nat}

-- No line of a table that leaves the status alone starts or ends a note.

theorem M4a.sevenBit_plain (op : UInt8) : (M4a.plain op).Yields Command.SevenBit := by
  unfold M4a.plain
  repeat' first | split | refine Reading.yields_bind fun _ => ?_
  all_goals simp [Command.SevenBit]

theorem Mlss.sevenBit_plain (op : UInt8) : (Mlss.plain op).Yields Command.SevenBit := by
  unfold Mlss.plain
  repeat' first | split | refine Reading.yields_bind fun _ => ?_
  all_goals simp [Command.SevenBit]

theorem Dse.sevenBit_plain (op : UInt8) : (Dse.plain op).Yields Command.SevenBit := by
  unfold Dse.plain
  repeat' first | split | refine Reading.yields_bind fun _ => ?_
  all_goals simp [Command.SevenBit]

theorem Sdat.sevenBit_plain (op : UInt8) : (Sdat.plain op).Yields Command.SevenBit := by
  unfold Sdat.plain
  repeat' first | split | refine Reading.yields_bind fun _ => ?_
  all_goals simp [Command.SevenBit]

/-- A velocity that is left out is the last one. -/
theorem M4a.staysSevenBit_note (duration : Option Nat) : (M4a.note duration).StaysSevenBit s := by
  intro status place hstatus inside
  have small := (s.arguments_bounds (if duration.isSome then 3 else 2) inside).2
  have hvelocity := getElem?_getD_le small (i := 1) hstatus.lastVelocity_le
  refine ⟨hvelocity, fun c after e => ?_⟩
  cases e
  exact hvelocity

/-- The key whose note ends is one of the arguments, or there is none. -/
theorem M4a.staysSevenBit_noteEnd : M4a.noteEnd.StaysSevenBit s := by
  intro status place hstatus inside
  refine ⟨hstatus.lastVelocity_le, fun c after e => ?_⟩
  cases e
  cases found : (s.arguments 1 place)[0]? with
  | none => trivial
  | some key => exact (s.arguments_bounds 1 inside).2 key (List.mem_of_getElem? found)

theorem M4a.staysSevenBit_perform (op : UInt8) : (M4a.perform op).StaysSevenBit s := by
  unfold M4a.perform
  repeat' split
  · exact Decoder.staysSevenBit_plain (M4a.sevenBit_plain op)
  · exact M4a.staysSevenBit_noteEnd
  · exact M4a.staysSevenBit_note _
  · exact M4a.staysSevenBit_note _

theorem M4a.staysSevenBit_decoder : M4a.decoder.StaysSevenBit s := by
  intro status place hstatus inside
  unfold M4a.decoder
  split
  · exact ⟨hstatus.lastVelocity_le, fun _ _ e => by cases e⟩
  · next op hop =>
    split
    -- the opcode is written out, and remembered before it is performed
    · have same : (M4a.Status.remember status op).lastVelocity = status.lastVelocity := by
        unfold M4a.Status.remember
        split <;> rfl
      exact M4a.staysSevenBit_perform op _ _
        ⟨M4a.fits_remember hstatus.toFits op, same ▸ hstatus.lastVelocity_le⟩
        (Bytes.lt_size_of_getElem? hop)
    · split
      · exact M4a.staysSevenBit_perform _ status place hstatus inside
      · exact ⟨hstatus.lastVelocity_le, fun _ _ e => by cases e⟩

/-- Notes of MLSS are as loud as the status says. They never change it. -/
theorem Mlss.staysSevenBit_decoder : Mlss.decoder.StaysSevenBit s := by
  refine Decoder.staysSevenBit_byOpcode fun op => ?_
  split
  · exact Decoder.staysSevenBit_updating Reading.ensures_unsigned fun _ _ hstatus _ =>
      ⟨hstatus.lastVelocity_le, hstatus.lastVelocity_le⟩
  · exact Decoder.staysSevenBit_plain (Mlss.sevenBit_plain op)

/-- Notes of SDAT carry their own velocity. -/
theorem Sdat.staysSevenBit_decoder : Sdat.decoder.StaysSevenBit s := by
  refine Decoder.staysSevenBit_byOpcode fun op => ?_
  split
  · have reading : (do return (← Reading.sevenBit, ← Reading.varlen) : Reading (Nat × Nat)).Ensures
        s fun a => a.1 ≤ 127 :=
      Reading.ensures_sevenBit.bind fun _ small => Reading.ensures_varlen.bind fun _ _ =>
        Reading.ensures_pure small
    exact Decoder.staysSevenBit_updating reading fun _ _ _ small => ⟨small, small⟩
  · exact Decoder.staysSevenBit_plain (Sdat.sevenBit_plain op)

/-- The velocity is the opcode itself, so it is small where a note is played. -/
theorem Dse.staysSevenBit_note {velocity : Nat} (small : velocity ≤ 127) :
    (Dse.note velocity).StaysSevenBit s := by
  intro status place hstatus inside
  unfold Dse.note
  split
  · exact ⟨hstatus.lastVelocity_le, fun _ _ e => by cases e⟩
  · dsimp only [Decoder.updating]
    split
    · refine ⟨small, fun c after e => ?_⟩
      cases e
      exact small
    · exact ⟨hstatus.lastVelocity_le, fun _ _ e => by cases e⟩

/-- Only the opcodes below 128 are notes. All others leave the last velocity as it was. -/
theorem Dse.staysSevenBit_decoder : Dse.decoder.StaysSevenBit s := by
  refine Decoder.staysSevenBit_byOpcode fun op => ?_
  have quiet : ∀ {α : Type} {r : Reading α} {P : α → Prop} {next : Status → α → Status × Command},
      r.Ensures s P → (∀ status a, (next status a).1.lastVelocity = status.lastVelocity ∧
        (next status a).2.SevenBit) → (Decoder.updating r next).StaysSevenBit s := by
    intro α r P next hr h
    exact Decoder.staysSevenBit_updating hr fun status a hstatus _ =>
      ⟨(h status a).1 ▸ hstatus.lastVelocity_le, (h status a).2⟩
  unfold Dse.perform
  split
  · next small =>
    have small : op.toNat < 128 := small
    exact Dse.staysSevenBit_note (Nat.le_of_lt_succ small)
  · split
    · exact quiet (P := fun _ => True) (Reading.ensures_pure trivial) fun _ _ => ⟨rfl, trivial⟩
    · split
      · exact quiet (P := fun _ => True) (Reading.ensures_pure trivial) fun _ _ => ⟨rfl, trivial⟩
      · exact quiet Reading.ensures_unsigned fun _ _ => ⟨rfl, trivial⟩
      · exact quiet Reading.ensures_unsigned fun _ _ => ⟨rfl, trivial⟩
      · exact quiet Reading.ensures_unsigned fun _ _ => ⟨rfl, trivial⟩
      · exact quiet (Reading.ensures_little 2) fun _ _ => ⟨rfl, trivial⟩
      · exact quiet (Reading.ensures_little 3) fun _ _ => ⟨rfl, trivial⟩
      · exact quiet Reading.ensures_unsigned fun _ _ => ⟨rfl, trivial⟩
      · exact quiet Reading.ensures_signed fun _ _ => ⟨rfl, trivial⟩
      · exact Decoder.staysSevenBit_plain (Dse.sevenBit_plain op)

theorem staysSevenBit_decoder (driver : SoundDriver) : driver.decoder.StaysSevenBit s := by
  cases driver with
  | m4a => exact M4a.staysSevenBit_decoder
  | mlss => exact Mlss.staysSevenBit_decoder
  | dse => exact Dse.staysSevenBit_decoder
  | sdat => exact Sdat.staysSevenBit_decoder

/-! ## Behind the end

Decoding behind the last byte fails. With progress and range, this is all that a player has to know
of a decoder. -/

/-- Behind the last byte there is nothing to decode. -/
theorem decoder_of_size_le (driver : SoundDriver) (status : Status) {place : Nat}
    (beyond : s.bytes.size ≤ place) : driver.decoder status s place = (status, .error .ended) := by
  have none : s.bytes[place]? = none := getElem?_neg s.bytes place (Nat.not_lt.mpr beyond)
  cases driver with
  | m4a => simp only [SoundDriver.decoder, M4a.decoder, none]
  | mlss => simp only [SoundDriver.decoder, Mlss.decoder, Decoder.byOpcode, none]
  | dse => simp only [SoundDriver.decoder, Dse.decoder, Decoder.byOpcode, none]
  | sdat => simp only [SoundDriver.decoder, Sdat.decoder, Decoder.byOpcode, none]

/-- What is decoded starts inside the stream. -/
theorem lt_size_of_decode {driver : SoundDriver} {d : Decoded} {place : Nat}
    (found : (s.decode driver place status).2 = .ok d) : place < s.bytes.size := by
  apply Nat.lt_of_not_le
  intro beyond
  unfold decode decodeWith at found
  rw [decoder_of_size_le driver status beyond] at found
  cases found

/-- Decoding is sound, for every driver, at every place of every stream and with every status that
is in range. A decoded command takes at least one byte and ends inside the stream, a place to go to
lies inside it too, and the other numbers are in range. The status is in range again. What is wrong
with a command is told with its offset. -/
theorem decode_sound (driver : SoundDriver) (s : EventStream) (cursor : Nat) {status : Status}
    (hstatus : status.InRange) :
    (s.decode driver cursor status).1.InRange ∧
      (∀ d, (s.decode driver cursor status).2 = .ok d →
        1 ≤ d.length ∧ cursor + d.length ≤ s.bytes.size ∧ d.command.InRange s.bytes.size) ∧
      ∀ e, (s.decode driver cursor status).2 = .error e → e.offset = cursor := by
  by_cases inside : cursor ≤ s.bytes.size
  · have fits := decode_fits driver hstatus.toFits inside
    have seven := staysSevenBit_decoder driver status cursor hstatus inside
    unfold decode decodeWith at fits ⊢
    split at fits
    · next status' c after found =>
      rw [found] at seven
      have forth : cursor < after := lt_of_decoder hstatus.toFits (congrArg Prod.snd found)
      refine ⟨⟨fits.1, seven.1⟩, fun d e => ?_, fun _ e => by cases e⟩
      cases e
      obtain ⟨room, hc⟩ := fits.2 _ rfl
      exact ⟨Nat.sub_pos_of_lt forth, room, hc, seven.2 c after rfl⟩
    · next status' defect found =>
      rw [found] at seven
      refine ⟨⟨fits.1, seven.1⟩, fun _ e => (by cases e), fun error e => ?_⟩
      cases e
      exact Defect.offset_at cursor defect
  · have beyond := decoder_of_size_le driver status (Nat.le_of_not_le inside)
    unfold decode decodeWith
    rw [beyond]
    exact ⟨hstatus, fun _ e => (by cases e), fun _ e => by cases e; rfl⟩

/-- A stream of M4A: a note of four ticks, and the key of another one like it. -/
def repeatedNote : EventStream := { bytes := ⟨#[0xD3, 60, 100, 0, 64]⟩ }

theorem decode_sound_repeatedNote :
    ({} : Status).InRange ∧
      (repeatedNote.decode .m4a 0 {}).2 = .ok ⟨.noteOn 60 100 (some 4), 4⟩ ∧
      (repeatedNote.decode .m4a 0 {}).1.InRange ∧
      (repeatedNote.decode .m4a 4 (repeatedNote.decode .m4a 0 {}).1).2 =
        .ok ⟨.noteOn 64 100 (some 4), 1⟩ ∧
      1 ≤ 1 ∧ 4 + 1 ≤ repeatedNote.bytes.size ∧
      (Command.noteOn 64 100 (some 4)).InRange repeatedNote.bytes.size := by
  have fresh : ({} : Status).InRange := ⟨⟨by decide, by decide⟩, by decide⟩
  obtain ⟨later, -, -⟩ := decode_sound .m4a repeatedNote 0 fresh
  obtain ⟨-, sound, -⟩ := decode_sound .m4a repeatedNote 4 later
  exact ⟨fresh, rfl, later, rfl, sound _ rfl⟩

end EventStream
end Chiptune
