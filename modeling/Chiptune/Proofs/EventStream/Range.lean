import Chiptune.Proofs.EventStream.Vocabulary
import Mathlib.Algebra.Group.Nat.Defs

/-!
# What streams can say

However its bytes were thrown together, a stream never says anything out of range. Decoding a
command stays inside the stream, a place to go to lies inside it too, and every other number that a
command carries is one that its receiver can take (`Command.Fits`). That is so on the condition that
the status, with what it remembers of earlier commands, is in range as well, and decoding keeps it
so (`EventStream.decode_fits`).
-/

namespace Chiptune

/-- The numbers of the command are in range, for a stream of that many bytes. -/
def Command.Fits (size : Nat) : Command → Prop
  | .noteOn key _ _ => key ≤ 127
  | .volume level => level ≤ 127
  | .expression level => level ≤ 127
  | .pan place => -64 ≤ place ∧ place ≤ 63
  | .bend amount => -8192 ≤ amount ∧ amount ≤ 8191
  | .bendRange semitones => semitones < 2 ^ 8
  | .transpose semitones => -128 ≤ semitones ∧ semitones ≤ 127
  | .tempo bpm => bpm < 2 ^ 16
  | .jump target => target < size
  | .call target _ => target < size
  | .again target count => target < size ∧ count < 2 ^ 8
  | _ => True

/-- What later commands may take from the status is in range. -/
structure Status.Fits (status : Status) : Prop where
  lastKey_le : status.lastKey ≤ 127
  octave_le : status.octave ≤ 10

/-! ## Numbers in a byte string

Bounds of the numbers that the loops over bytes put together, in either order. -/

namespace Bytes

variable {b : ByteArray} {i n : Nat}

theorem lt_size_of_getElem? {x : UInt8} (h : b[i]? = some x) : i < b.size :=
  (getElem?_eq_some_iff.mp h).1

/-- A little-endian number that is found ends inside the bytes, and has no more than `width` bytes.
-/
theorem little?_bounds {width : Nat} (inside : i ≤ b.size) (h : little? b width i = some n) :
    i + width ≤ b.size ∧ n < 256 ^ width := by
  induction width generalizing i n with
  | zero =>
    cases h
    exact ⟨inside, Nat.one_pos⟩
  | succ width ih =>
    obtain ⟨low, hlow, h⟩ := Option.bind_eq_some_iff.mp h
    obtain ⟨high, hhigh, h⟩ := Option.bind_eq_some_iff.mp h
    cases h
    obtain ⟨room, bound⟩ := ih (lt_size_of_getElem? hlow) hhigh
    have := low.toNat_lt
    rw [Nat.pow_succ]
    omega

/-- The same for a big-endian number. What was read before, `acc`, stands in front of its digits. -/
theorem bigFrom?_bounds {width acc : Nat} (inside : i ≤ b.size)
    (h : bigFrom? b width i acc = some n) :
    i + width ≤ b.size ∧ n < 256 ^ width * (acc + 1) := by
  induction width generalizing i acc with
  | zero =>
    cases h
    exact ⟨inside, by omega⟩
  | succ width ih =>
    obtain ⟨digit, hdigit, h⟩ := Option.bind_eq_some_iff.mp h
    obtain ⟨room, bound⟩ := ih (lt_size_of_getElem? hdigit) h
    have := digit.toNat_lt
    refine ⟨by omega, ?_⟩
    calc n < 256 ^ width * (256 * acc + digit.toNat + 1) := bound
      _ ≤ 256 ^ width * (256 * (acc + 1)) := Nat.mul_le_mul_left _ (by omega)
      _ = 256 ^ (width + 1) * (acc + 1) := by rw [Nat.pow_succ, Nat.mul_assoc]

end Bytes

/-! ## Readings

A reading that starts inside the stream ends inside it, and yields something with a given property.
`Ensures.bind` hands the property of one reading on to the next, so that each reader has one lemma
and none is unfolded again. -/

namespace Reading

variable {α β : Type} {s : EventStream} {P : α → Prop} {Q : β → Prop}

/-- The reading stays inside the stream, and what it yields has the property. -/
def Ensures (r : Reading α) (s : EventStream) (P : α → Prop) : Prop :=
  ∀ place a after, place ≤ s.bytes.size → r s place = .ok (a, after) →
    (place ≤ after ∧ after ≤ s.bytes.size) ∧ P a

theorem ensures_pure {a : α} (h : P a) : (pure a : Reading α).Ensures s P := by
  intro place b after inside e
  cases e
  exact ⟨⟨Nat.le_refl _, inside⟩, h⟩

theorem ensures_fail (d : Defect) : (fail d : Reading α).Ensures s P := by
  intro place a after inside e
  cases e

/-- The property of the first reading is what the second one may rely on. -/
theorem Ensures.bind {r : Reading α} {next : α → Reading β} (h : r.Ensures s P)
    (h' : ∀ a, P a → (next a).Ensures s Q) : (r >>= next).Ensures s Q := by
  intro place b after inside e
  rw [bind_apply] at e
  split at e
  · next a middle hr =>
    obtain ⟨⟨forth, inside⟩, ha⟩ := h _ _ _ inside hr
    obtain ⟨⟨forth', inside⟩, hb⟩ := h' a ha _ _ _ inside e
    exact ⟨⟨Nat.le_trans forth forth', inside⟩, hb⟩
  · cases e

/-- For a field of a fixed width it is enough to look at what is found there. -/
theorem ensures_fixed {width : Nat} {find : ByteArray → Nat → Option α}
    (h : ∀ i a, i ≤ s.bytes.size → find s.bytes i = some a → i + width ≤ s.bytes.size ∧ P a) :
    (fixed width find).Ensures s P := by
  intro place a after inside e
  unfold fixed at e
  split at e
  · next found =>
    cases e
    obtain ⟨room, ha⟩ := h _ _ inside found
    exact ⟨⟨Nat.le_add_right _ _, room⟩, ha⟩
  · cases e

theorem ensures_byte : byte.Ensures s fun _ => True :=
  ensures_fixed fun _ _ _ found => ⟨Bytes.lt_size_of_getElem? found, trivial⟩

theorem ensures_unsigned : unsigned.Ensures s (· < 2 ^ 8) :=
  ensures_byte.bind fun b _ => ensures_pure b.toNat_lt

theorem ensures_signed : signed.Ensures s fun x => -128 ≤ x ∧ x ≤ 127 :=
  ensures_byte.bind fun b _ =>
    ensures_pure ⟨b.toInt8.le_toInt, Int.le_of_lt_add_one b.toInt8.toInt_lt⟩

theorem ensures_little (width : Nat) : (little width).Ensures s (· < 256 ^ width) :=
  ensures_fixed fun _ _ inside found => Bytes.little?_bounds inside found

theorem ensures_big (width : Nat) : (big width).Ensures s (· < 256 ^ width) :=
  ensures_fixed fun _ _ inside found => by simpa using Bytes.bigFrom?_bounds inside found

/-- Numbers of seven bits are clamped, not checked: a byte above 127 counts as 127. -/
theorem ensures_sevenBit : sevenBit.Ensures s (· ≤ 127) :=
  ensures_unsigned.bind fun _ _ => ensures_pure (Nat.min_le_right _ _)

theorem ensures_centred : centred.Ensures s fun x => -64 ≤ x ∧ x ≤ 63 :=
  ensures_sevenBit.bind fun n hn => ensures_pure (by omega)

theorem ensures_skip (width : Nat) : (skip width).Ensures s fun _ => True :=
  (ensures_little width).bind fun _ _ => ensures_pure trivial

/-- Sixteen bits with a sign, in either order of the two bytes. -/
theorem ensures_signed16 {wide : Reading Nat} (h : wide.Ensures s (· < 2 ^ 16)) :
    (signed16 wide).Ensures s fun x => -32768 ≤ x ∧ x ≤ 32767 :=
  h.bind fun n hn => ensures_pure (by split <;> omega)

/-- Each byte adds seven bits to the number so far. -/
theorem ensures_varlenFrom (digits acc : Nat) :
    (varlenFrom digits acc).Ensures s (· < 128 ^ digits * (acc + 1)) := by
  induction digits generalizing acc with
  | zero => exact ensures_pure (by omega)
  | succ digits ih =>
    refine ensures_unsigned.bind fun b _ => ?_
    have grown : 128 ^ digits * (128 * acc + b % 128 + 1) ≤ 128 ^ (digits + 1) * (acc + 1) :=
      calc _ ≤ 128 ^ digits * (128 * (acc + 1)) := Nat.mul_le_mul_left _ (by omega)
        _ = 128 ^ (digits + 1) * (acc + 1) := by rw [Nat.pow_succ, Nat.mul_assoc]
    split
    · refine ensures_pure (Nat.lt_of_lt_of_le ?_ grown)
      calc _ < 128 * acc + b % 128 + 1 := Nat.lt_succ_self _
        _ ≤ _ := Nat.le_mul_of_pos_left _ (Nat.pow_pos (by decide))
    · intro place n after inside e
      obtain ⟨room, hn⟩ := ih (128 * acc + b % 128) _ _ _ inside e
      exact ⟨room, Nat.lt_of_lt_of_le hn grown⟩

/-- Four bytes of seven bits each. -/
theorem ensures_varlen : varlen.Ensures s (· < 2 ^ 28) := ensures_varlenFrom 4 0

/-- An address outside the stream is an error, so one that is read lies inside. -/
theorem ensures_address (width : Nat) : (address width).Ensures s (· < s.bytes.size) := by
  refine (ensures_little width).bind fun n _ => ?_
  intro place target after inside e
  unfold resolve at e
  dsimp only at e
  split at e
  · next valid =>
    cases e
    exact ⟨⟨Nat.le_refl _, inside⟩, valid⟩
  · cases e

/-- The same for an address that is told by the distance from here. -/
theorem ensures_displacement : displacement.Ensures s (· < s.bytes.size) := by
  refine (ensures_signed16 (ensures_little 2)).bind fun delta _ => ?_
  intro place target after inside e
  dsimp only at e
  split at e
  · next valid =>
    cases e
    exact ⟨⟨Nat.le_refl _, inside⟩, by omega⟩
  · cases e

end Reading

/-! ## Decoders

The same for decoders, which carry a status along as well. -/

namespace Decoder

variable {s : EventStream}

/-- The decoder stays inside the stream, decodes commands in range and keeps the status in range. -/
def Ensures (d : Decoder) (s : EventStream) : Prop :=
  ∀ status place, status.Fits → place ≤ s.bytes.size →
    (d status s place).1.Fits ∧
      ∀ c after, (d status s place).2 = .ok (c, after) →
        (place ≤ after ∧ after ≤ s.bytes.size) ∧ c.Fits s.bytes.size

/-- The status takes no part in a plain reading. -/
theorem ensures_plain {r : Reading Command} (h : r.Ensures s (Command.Fits s.bytes.size)) :
    (plain r).Ensures s :=
  fun _ place hstatus inside => ⟨hstatus, fun c after e => h place c after inside e⟩

/-- A reading that fails leaves the status alone, so `next` has to be looked at only for what was
read. -/
theorem ensures_updating {α : Type} {r : Reading α} {P : α → Prop}
    {next : Status → α → Status × Command} (h : r.Ensures s P)
    (h' : ∀ status a, status.Fits → P a →
      (next status a).1.Fits ∧ (next status a).2.Fits s.bytes.size) :
    (updating r next).Ensures s := by
  intro status place hstatus inside
  unfold updating
  split
  · next a after hr =>
    obtain ⟨room, ha⟩ := h _ _ _ inside hr
    obtain ⟨hnext, hc⟩ := h' status a hstatus ha
    refine ⟨hnext, fun c after' e => ?_⟩
    cases e
    exact ⟨room, hc⟩
  · exact ⟨hstatus, fun _ _ e => by cases e⟩

/-- A table of opcodes: each of its decoders starts behind the opcode. -/
theorem ensures_byOpcode {table : UInt8 → Decoder} (h : ∀ op, (table op).Ensures s) :
    (byOpcode table).Ensures s := by
  intro status place hstatus inside
  unfold byOpcode
  split
  · next op hop =>
    -- the opcode itself takes one byte
    obtain ⟨hnext, hc⟩ := h op status (place + 1) hstatus (Bytes.lt_size_of_getElem? hop)
    refine ⟨hnext, fun c after e => ?_⟩
    obtain ⟨room, hc⟩ := hc c after e
    exact ⟨by omega, hc⟩
  · exact ⟨hstatus, fun _ _ e => by cases e⟩

end Decoder

namespace EventStream

variable {s : EventStream}

/-- The arguments of a note stand inside the stream, and each of them has seven bits. -/
theorem arguments_bounds (s : EventStream) (limit : Nat) {place : Nat}
    (inside : place ≤ s.bytes.size) :
    place + (s.arguments limit place).length ≤ s.bytes.size ∧
      ∀ n ∈ s.arguments limit place, n ≤ 127 := by
  induction limit generalizing place with
  | zero => simpa [arguments] using inside
  | succ limit ih =>
    rw [arguments]
    split
    · next b hb =>
      split
      -- a byte below 128 is an argument, and the first other one ends them
      · next small =>
        obtain ⟨room, hrest⟩ := @ih (place + 1) (Bytes.lt_size_of_getElem? hb)
        have small : b.toNat < 128 := small
        refine ⟨by rw [List.length_cons]; omega, fun n hn => ?_⟩
        rcases List.mem_cons.mp hn with rfl | hn
        · omega
        · exact hrest n hn
      · simpa using inside
    · simpa using inside

/-! ## The opcode tables

Table by table, one line after the other. Most lines only need the range of the reader behind them.
Notes need that of the status, too, because they leave out what is as it was. -/

-- Each line of a table is followed from its first argument on.

theorem M4a.ensures_plain (op : UInt8) : (M4a.plain op).Ensures s (Command.Fits s.bytes.size) := by
  unfold M4a.plain
  repeat' first
    | split
    | with_reducible refine Reading.ensures_unsigned.bind fun _ _ => ?_
    | with_reducible refine Reading.ensures_signed.bind fun _ _ => ?_
    | with_reducible refine Reading.ensures_sevenBit.bind fun _ _ => ?_
    | with_reducible refine Reading.ensures_centred.bind fun _ _ => ?_
    | with_reducible refine (Reading.ensures_skip _).bind fun _ _ => ?_
    | with_reducible refine (Reading.ensures_address _).bind fun _ _ => ?_
    | exact Reading.ensures_fail _
    | with_reducible refine Reading.ensures_pure ?_
  all_goals first | trivial | assumption | (simp only [Command.Fits]; omega)

theorem Mlss.ensures_plain (op : UInt8) :
    (Mlss.plain op).Ensures s (Command.Fits s.bytes.size) := by
  unfold Mlss.plain
  repeat' first
    | split
    | with_reducible refine Reading.ensures_unsigned.bind fun _ _ => ?_
    | with_reducible refine Reading.ensures_signed.bind fun _ _ => ?_
    | with_reducible refine Reading.ensures_sevenBit.bind fun _ _ => ?_
    | with_reducible refine Reading.ensures_centred.bind fun _ _ => ?_
    | with_reducible refine (Reading.ensures_little _).bind fun _ _ => ?_
    | with_reducible refine Reading.ensures_displacement.bind fun _ _ => ?_
    | exact Reading.ensures_fail _
    | with_reducible refine Reading.ensures_pure ?_
  all_goals first | trivial | assumption | (simp only [Command.Fits]; omega)

theorem Dse.ensures_plain (op : UInt8) :
    (Dse.plain op).Ensures s (Command.Fits s.bytes.size) := by
  unfold Dse.plain
  repeat' first
    | split
    | with_reducible refine Reading.ensures_unsigned.bind fun _ _ => ?_
    | with_reducible refine Reading.ensures_sevenBit.bind fun _ _ => ?_
    | with_reducible refine Reading.ensures_centred.bind fun _ _ => ?_
    | with_reducible refine (Reading.ensures_signed16 (Reading.ensures_big 2)).bind fun _ _ => ?_
    | with_reducible refine (Reading.ensures_skip _).bind fun _ _ => ?_
    | exact Reading.ensures_fail _
    | with_reducible refine Reading.ensures_pure ?_
  all_goals first | trivial | assumption | (simp only [Command.Fits]; omega)

theorem Sdat.ensures_plain (op : UInt8) :
    (Sdat.plain op).Ensures s (Command.Fits s.bytes.size) := by
  unfold Sdat.plain
  repeat' first
    | split
    | with_reducible refine Reading.ensures_byte.bind fun _ _ => ?_
    | with_reducible refine Reading.ensures_unsigned.bind fun _ _ => ?_
    | with_reducible refine Reading.ensures_signed.bind fun _ _ => ?_
    | with_reducible refine Reading.ensures_sevenBit.bind fun _ _ => ?_
    | with_reducible refine Reading.ensures_centred.bind fun _ _ => ?_
    | with_reducible refine Reading.ensures_varlen.bind fun _ _ => ?_
    | with_reducible refine (Reading.ensures_skip _).bind fun _ _ => ?_
    | with_reducible refine (Reading.ensures_little _).bind fun _ _ => ?_
    | with_reducible refine (Reading.ensures_address _).bind fun _ _ => ?_
    | exact Reading.ensures_fail _
    | with_reducible refine Reading.ensures_pure ?_
  all_goals first | trivial | assumption | (simp only [Command.Fits]; omega)

/-- What an argument leaves out is as it was before. -/
theorem getElem?_getD_le {arguments : List Nat} (h : ∀ n ∈ arguments, n ≤ 127) {i before : Nat}
    (hbefore : before ≤ 127) : arguments[i]?.getD before ≤ 127 := by
  cases hi : arguments[i]? with
  | none => exact hbefore
  | some n => exact h n (List.mem_of_getElem? hi)

/-- A key that is left out is taken from the status, and that one is in range. -/
theorem M4a.ensures_note (duration : Option Nat) : (M4a.note duration).Ensures s := by
  intro status place hstatus inside
  obtain ⟨room, small⟩ := s.arguments_bounds (if duration.isSome then 3 else 2) inside
  have hkey := getElem?_getD_le small (i := 0) hstatus.lastKey_le
  refine ⟨⟨hkey, hstatus.octave_le⟩, fun c after e => ?_⟩
  cases e
  exact ⟨⟨Nat.le_add_right _ _, room⟩, hkey⟩

/-- The end of a note may name a key, and remembers it then. -/
theorem M4a.ensures_noteEnd : M4a.noteEnd.Ensures s := by
  intro status place hstatus inside
  obtain ⟨room, small⟩ := s.arguments_bounds 1 inside
  refine ⟨⟨getElem?_getD_le small hstatus.lastKey_le, hstatus.octave_le⟩, fun c after e => ?_⟩
  cases e
  exact ⟨⟨Nat.le_add_right _ _, room⟩, trivial⟩

/-- Whether the opcode is written out or repeated makes no difference here. -/
theorem M4a.ensures_perform (op : UInt8) : (M4a.perform op).Ensures s := by
  unfold M4a.perform
  split
  · exact Decoder.ensures_plain (M4a.ensures_plain op)
  · split
    · exact M4a.ensures_noteEnd
    · split <;> exact M4a.ensures_note _

/-- What is remembered of an opcode is only the opcode. -/
theorem M4a.fits_remember {status : Status} (hstatus : status.Fits) (op : UInt8) :
    (M4a.Status.remember status op).Fits := by
  unfold M4a.Status.remember
  split
  · exact ⟨hstatus.lastKey_le, hstatus.octave_le⟩
  · exact hstatus

/-- With running status, an opcode that is remembered is performed without taking a byte for it. -/
theorem M4a.ensures_decoder : M4a.decoder.Ensures s := by
  intro status place hstatus inside
  unfold M4a.decoder
  split
  · exact ⟨hstatus, fun _ _ e => by cases e⟩
  · next op hop =>
    split
    · obtain ⟨hnext, hc⟩ := M4a.ensures_perform op _ (place + 1) (M4a.fits_remember hstatus op)
        (Bytes.lt_size_of_getElem? hop)
      refine ⟨hnext, fun c after e => ?_⟩
      obtain ⟨room, hc⟩ := hc c after e
      exact ⟨by omega, hc⟩
    · split
      · exact M4a.ensures_perform _ status place hstatus inside
      · exact ⟨hstatus, fun _ _ e => by cases e⟩

/-- Each opcode of MLSS. A key is the opcode itself. -/
theorem Mlss.ensures_perform (op : UInt8) :
    (if op < 0x80 then Mlss.note op.toNat else .plain (Mlss.plain op)).Ensures s := by
  split
  · next small =>
    have small : op.toNat < 128 := small
    -- the opcode is the key, and it is below 128 here
    refine Decoder.ensures_updating Reading.ensures_unsigned fun status length hstatus _ => ?_
    exact ⟨⟨by dsimp only; omega, hstatus.octave_le⟩, by simp only [Command.Fits]; omega⟩
  · exact Decoder.ensures_plain (Mlss.ensures_plain op)

theorem Mlss.ensures_decoder : Mlss.decoder.Ensures s :=
  Decoder.ensures_byOpcode Mlss.ensures_perform

/-- Each opcode of SDAT. Here, too, a key is the opcode itself. -/
theorem Sdat.ensures_perform (op : UInt8) :
    (if op < 0x80 then Sdat.note op.toNat else .plain (Sdat.plain op)).Ensures s := by
  split
  · next small =>
    have small : op.toNat < 128 := small
    have reading : (do return (← Reading.sevenBit, ← Reading.varlen) : Reading (Nat × Nat)).Ensures
        s fun _ => True :=
      Reading.ensures_sevenBit.bind fun _ _ => Reading.ensures_varlen.bind fun _ _ =>
        Reading.ensures_pure trivial
    refine Decoder.ensures_updating reading fun status a hstatus _ => ?_
    exact ⟨⟨by dsimp only; omega, hstatus.octave_le⟩, by simp only [Command.Fits]; omega⟩
  · exact Decoder.ensures_plain (Sdat.ensures_plain op)

theorem Sdat.ensures_decoder : Sdat.decoder.Ensures s :=
  Decoder.ensures_byOpcode Sdat.ensures_perform

/-- The key comes from the octave of the status, which the note changes first, even when its
duration is cut off. -/
theorem Dse.ensures_note (velocity : Nat) : (Dse.note velocity).Ensures s := by
  intro status place hstatus inside
  unfold Dse.note
  split
  · exact ⟨hstatus, fun _ _ e => by cases e⟩
  · next packed after hpacked =>
    obtain ⟨room, -⟩ := Reading.ensures_unsigned _ _ _ inside hpacked
    have duration : ∀ {width ticks : Nat},
        (if width = 0 then pure ticks else Reading.big width : Reading Nat).Ensures s
          fun _ => True := by
      intro width ticks
      split
      · exact Reading.ensures_pure trivial
      · exact fun _ _ _ inside e => ⟨(Reading.ensures_big width _ _ _ inside e).1, trivial⟩
    -- the octave has changed by then, whatever becomes of the duration
    refine And.imp_right (fun h c after' e => ?_) (Decoder.ensures_updating duration
      (fun status ticks hstatus _ => ?_) _ after ⟨hstatus.lastKey_le, Nat.min_le_right _ _⟩ room.2)
    · obtain ⟨room', hc⟩ := h c after' e
      exact ⟨by omega, hc⟩
    · exact ⟨⟨Nat.min_le_right _ _, hstatus.octave_le⟩, Nat.min_le_right _ _⟩

/-- Each opcode of DSE. A rest or an octave is remembered, the other commands leave the status as it
is. -/
theorem Dse.ensures_perform (op : UInt8) : (Dse.perform op).Ensures s := by
  -- a pause is remembered, and an octave too, but neither touches the last key
  have paused : ∀ status ticks, status.Fits →
      (Dse.pause status ticks).1.Fits ∧ (Dse.pause status ticks).2.Fits s.bytes.size :=
    fun status ticks hstatus => ⟨⟨hstatus.lastKey_le, hstatus.octave_le⟩, trivial⟩
  have octave : ∀ status octave, status.Fits →
      (Dse.setOctave status octave).1.Fits ∧ (Dse.setOctave status octave).2.Fits s.bytes.size :=
    fun status octave hstatus => ⟨⟨hstatus.lastKey_le, Nat.min_le_right _ _⟩, trivial⟩
  unfold Dse.perform
  split
  · exact Dse.ensures_note _
  · split
    · exact Decoder.ensures_updating (P := fun _ => True) (Reading.ensures_pure trivial)
        fun _ _ h _ => paused _ _ h
    · split
      · exact Decoder.ensures_updating (P := fun _ => True) (Reading.ensures_pure trivial)
          fun _ _ h _ => ⟨h, trivial⟩
      · exact Decoder.ensures_updating Reading.ensures_unsigned fun _ _ h _ => paused _ _ h
      · exact Decoder.ensures_updating Reading.ensures_unsigned fun _ _ h _ => paused _ _ h
      · exact Decoder.ensures_updating Reading.ensures_unsigned fun _ _ h _ => paused _ _ h
      · exact Decoder.ensures_updating (Reading.ensures_little 2) fun _ _ h _ => paused _ _ h
      · exact Decoder.ensures_updating (Reading.ensures_little 3) fun _ _ h _ => paused _ _ h
      · exact Decoder.ensures_updating Reading.ensures_unsigned fun _ _ h _ => octave _ _ h
      · exact Decoder.ensures_updating Reading.ensures_signed fun _ _ h _ => octave _ _ h
      · exact Decoder.ensures_plain (Dse.ensures_plain op)

theorem Dse.ensures_decoder : Dse.decoder.Ensures s :=
  Decoder.ensures_byOpcode Dse.ensures_perform

/-- All four drivers at once. -/
theorem ensures_decoder (driver : SoundDriver) : driver.decoder.Ensures s := by
  cases driver with
  | m4a => exact M4a.ensures_decoder
  | mlss => exact Mlss.ensures_decoder
  | dse => exact Dse.ensures_decoder
  | sdat => exact Sdat.ensures_decoder

/-- Decoding keeps the status in range. A decoded command is in range, lies inside the stream and
takes its length from it. -/
theorem decode_fits (driver : SoundDriver) {cursor : Nat} {status : Status}
    (hstatus : status.Fits) (inside : cursor ≤ s.bytes.size) :
    (s.decode driver cursor status).1.Fits ∧
      ∀ d, (s.decode driver cursor status).2 = .ok d →
        cursor + d.length ≤ s.bytes.size ∧ d.command.Fits s.bytes.size := by
  obtain ⟨hnext, hc⟩ := ensures_decoder driver status cursor hstatus inside
  unfold decode decodeWith
  split
  · next e =>
    rw [e] at hnext hc
    refine ⟨hnext, fun d hd => ?_⟩
    cases hd
    obtain ⟨⟨forth, inside⟩, hc⟩ := hc _ _ rfl
    exact ⟨by dsimp only; omega, hc⟩
  · next e =>
    rw [e] at hnext
    exact ⟨hnext, fun _ hd => by cases hd⟩

end EventStream
end Chiptune
