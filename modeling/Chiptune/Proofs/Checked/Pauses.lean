import Chiptune.Proofs.Checked.Counters
import Chiptune.Proofs.EventStream.Soundness

/-!
# Pauses that grow

Whoever decodes one command after the other, in whichever streams and at whichever places, carries
a status along. Most of it is read anew from a few bytes, or is kept between two bounds. Only the
last pause of a DSE stream can be added to without an end. So decoding in words comes out right
unless a pause is lengthened beyond its 32 bits (`EventStream.decodes_in_words`), which takes more
than 2^24 commands: a pause that is read has 24 bits, and one command lengthens it by a byte.
-/

namespace Chiptune

open Checked

namespace Checked

variable {α : Type}

/-- What comes out right unless a counter is full, and finds none full, comes out right. -/
theorem Gives.eq_ok_of_fillsOnly {m : Checked α} {a : α} (gives : Gives m a)
    (h : m.FillsOnly fun _ => False) : m = .ok a := by
  cases gives with
  | ok => rfl
  | full c => exact (h c rfl).elim

end Checked

namespace EventStream

/-- A place in some stream, where a command is decoded. -/
structure Spot where
  stream : EventStream
  cursor : Nat

/-- Decode one command after the other, with the status that the one before has left behind. -/
def decodeSpots (driver : SoundDriver) :
    List Spot → Status → Status × List (Except DecodeError Decoded)
  | [], status => (status, [])
  | spot :: spots, status =>
    let (status, found) := spot.stream.decode driver spot.cursor status
    let (status, others) := decodeSpots driver spots status
    (status, found :: others)

/-- Behind the end of its stream a reader finds no opcode, and has nothing to calculate. -/
def checkedDecodeSpot (driver : SoundDriver) (spot : Spot) (status : Status) :
    Checked (Status × Except DecodeError Decoded) :=
  if spot.cursor < spot.stream.bytes.size then
    spot.stream.checkedDecode driver spot.cursor status
  else return (status, .error (.unexpectedEnd spot.cursor))

def checkedDecodeSpots (driver : SoundDriver) :
    List Spot → Status → Checked (Status × List (Except DecodeError Decoded))
  | [], status => return (status, [])
  | spot :: spots, status => do
    let (status, found) ← checkedDecodeSpot driver spot status
    let (status, others) ← checkedDecodeSpots driver spots status
    return (status, found :: others)

/-- The command there lengthens the last pause, and then it does not fit 32 bits any more. -/
structure Spot.Overfills (spot : Spot) (driver : SoundDriver) (status : Status) : Prop where
  driver_eq : driver = .dse
  /-- The opcode that lengthens the last pause. -/
  opcode : spot.stream.bytes[spot.cursor]? = some 0x91
  /-- The sum does not fit 32 bits. -/
  long : ∃ ticks, spot.stream.bytes[spot.cursor + 1]? = some ticks ∧
    2 ^ 32 ≤ status.lastWait + ticks.toNat

/-- One of the commands lengthens the pause too much that those before have left behind. -/
def Outgrows (driver : SoundDriver) (spots : List Spot) (status : Status) : Prop :=
  ∃ earlier spot later, spots = earlier ++ spot :: later ∧
    spot.Overfills driver (decodeSpots driver earlier status).1

variable {s : EventStream} {driver : SoundDriver} {spot : Spot} {spots : List Spot}
  {status : Status} {place : Nat}

/-! ## One command

A command that lengthens the last pause is one opcode of one driver. At any other place decoding
finds no counter full, and gives the plain result. -/

/-- A number of one byte is this byte. -/
theorem unsigned_eq (s : EventStream) (place : Nat) :
    Reading.unsigned s place =
      match s.bytes[place]? with
      | some b => .ok (b.toNat, place + 1)
      | none => .error .ended := by
  cases found : s.bytes[place]? <;>
    simp [Reading.unsigned, Reading.bind_apply, Reading.byte, Reading.fixed, found]

/-- A byte is read and added to the last pause. -/
theorem Dse.checkedPerform_lengthen (status : Status) (s : EventStream) (place : Nat) :
    Dse.checkedPerform 0x91 status s place =
      match s.bytes[place]? with
      | some ticks => do
        let pause ← count .lastPause (status.lastWait + ticks.toNat)
        return ({ status with lastWait := pause }, .ok (.wait pause, place + 1))
      | none => .ok (status, .error .ended) := by
  -- the opcode is no note and no short pause, so it is the first line of the table
  have line : Dse.checkedPerform 0x91 = .updating (.plain .unsigned) fun status ticks => do
      return pause status (← count .lastPause (status.lastWait + ticks)) := by
    unfold Dse.checkedPerform
    rw [if_neg (by decide), if_neg (by decide)]
    rfl
  rw [line]
  unfold CheckedDecoder.updating CheckedReading.plain
  rw [ok_bind, unsigned_eq]
  cases s.bytes[place]? with
  | none => rfl
  | some ticks =>
    dsimp only
    cases count .lastPause (status.lastWait + ticks.toNat) <;> rfl

/-- DSE is read by its table, one byte behind the opcode. -/
theorem checkedDecoder_dse {op : UInt8} (found : s.bytes[place]? = some op) :
    SoundDriver.dse.checkedDecoder status s place =
      Dse.checkedPerform op status s (place + 1) := by
  change CheckedDecoder.byOpcode _ status s place = _
  unfold CheckedDecoder.byOpcode
  rw [found]

/-- A pause that is lengthened too much is found full. -/
theorem checkedDecodeSpot_of_overfills (small : spot.stream.bytes.size < 2 ^ 32)
    (overfills : spot.Overfills driver status) :
    checkedDecodeSpot driver spot status = .error (.full .lastPause) := by
  obtain ⟨rfl, opcode, ticks, argument, long⟩ := overfills
  have inside := Bytes.lt_size_of_getElem? opcode
  have full : count .lastPause (status.lastWait + ticks.toNat) = .error (.full .lastPause) :=
    if_neg (Nat.not_lt.mpr long)
  unfold checkedDecodeSpot checkedDecode farthest
  rw [if_pos inside, word_eq (by omega), ok_bind, checkedDecoder_dse opcode,
    Dse.checkedPerform_lengthen, argument]
  dsimp only
  rw [full]
  rfl

/-- A pause that stays short enough finds nothing full. -/
theorem Dse.fillsOnly_lengthen {allowed : Counter → Prop}
    (short : ∀ ticks, s.bytes[place]? = some ticks → status.lastWait + ticks.toNat < 2 ^ 32) :
    (Dse.checkedPerform 0x91 status s place).FillsOnly allowed := by
  rw [Dse.checkedPerform_lengthen]
  cases argument : s.bytes[place]? with
  | none => exact .ok _
  | some ticks =>
    have counted : count .lastPause (status.lastWait + ticks.toNat) = .ok _ :=
      if_pos (short ticks argument)
    dsimp only
    rw [counted]
    exact .ok _

/-- Where no pause is lengthened too much, nothing is found full. -/
theorem fillsOnly_of_not_overfills (fits : ¬ spot.Overfills driver status) :
    (driver.checkedDecoder status spot.stream spot.cursor).FillsOnly fun _ => False := by
  by_cases isDse : driver = .dse
  · subst isDse
    cases opcode : spot.stream.bytes[spot.cursor]? with
    | none =>
      change (CheckedDecoder.byOpcode _ _ _ _).FillsOnly _
      unfold CheckedDecoder.byOpcode
      rw [opcode]
      exact .ok _
    | some op =>
      rw [checkedDecoder_dse opcode]
      by_cases lengthens : op = 0x91
      · subst lengthens
        exact Dse.fillsOnly_lengthen fun ticks argument =>
          Nat.lt_of_not_le fun long => fits ⟨rfl, opcode, ticks, argument, long⟩
      · exact Dse.fillsOnly_checkedPerform (fun same => lengthens same) _ _ _
  · exact fillsOnly_checkedDecoder (fun same => isDse same) _ _ _

/-- Where no pause is lengthened too far, decoding comes out right. -/
theorem checkedDecodeSpot_of_not_overfills (small : spot.stream.bytes.size < 2 ^ 32)
    (hstatus : status.Fits) (fits : ¬ spot.Overfills driver status) :
    checkedDecodeSpot driver spot status =
      .ok (spot.stream.decode driver spot.cursor status) := by
  unfold checkedDecodeSpot
  split
  · next inside =>
    refine (gives_checkedDecode small hstatus (Nat.le_of_lt inside)).eq_ok_of_fillsOnly ?_
    exact fillsOnly_checkedDecode_of_decoder (fillsOnly_of_not_overfills fits)
  · next beyond =>
    unfold decode decodeWith
    rw [decoder_of_size_le driver status (Nat.le_of_not_lt beyond)]
    rfl

/-- The status stays in range wherever a command is decoded. -/
theorem fits_decodeSpot (driver : SoundDriver) (spot : Spot) (hstatus : status.Fits) :
    (spot.stream.decode driver spot.cursor status).1.Fits := by
  rcases Nat.lt_or_ge spot.stream.bytes.size spot.cursor with beyond | inside
  · unfold decode decodeWith
    rw [decoder_of_size_le driver status (Nat.le_of_lt beyond)]
    exact hstatus
  · exact (decode_fits driver hstatus inside).1

/-! ## One command after the other

The status is handed on, so whether a command overfills the pause depends on all those before.
`Outgrows` follows it through the list. -/

/-- The pause gets too long with the first command, or later, with the status that the first one
leaves. -/
theorem outgrows_cons :
    Outgrows driver (spot :: spots) status ↔
      spot.Overfills driver status ∨
        Outgrows driver spots (spot.stream.decode driver spot.cursor status).1 := by
  constructor
  · rintro ⟨earlier, there, later, split, overfills⟩
    cases earlier with
    | nil =>
      cases split
      exact .inl overfills
    | cons first earlier =>
      cases split
      exact .inr ⟨earlier, there, later, rfl, overfills⟩
  · rintro (overfills | ⟨earlier, there, later, rfl, overfills⟩)
    · exact ⟨[], spot, spots, rfl, overfills⟩
    · exact ⟨spot :: earlier, there, later, rfl, overfills⟩

/-- The first command that lengthens the pause too far ends the calculation, whatever would come
behind it. -/
theorem checkedDecodeSpots_of_outgrows
    (small : ∀ spot ∈ spots, spot.stream.bytes.size < 2 ^ 32) (hstatus : status.Fits)
    (outgrows : Outgrows driver spots status) :
    checkedDecodeSpots driver spots status = .error (.full .lastPause) := by
  induction spots generalizing status with
  | nil =>
    obtain ⟨earlier, there, later, none, -⟩ := outgrows
    cases earlier <;> cases none
  | cons spot spots ih =>
    obtain ⟨first, others⟩ := List.forall_mem_cons.mp small
    rw [checkedDecodeSpots]
    by_cases overfills : spot.Overfills driver status
    · rw [checkedDecodeSpot_of_overfills first overfills]
      rfl
    · rw [checkedDecodeSpot_of_not_overfills first hstatus overfills, ok_bind]
      dsimp only
      have later := (outgrows_cons.mp outgrows).resolve_left overfills
      rw [ih others (fits_decodeSpot driver spot hstatus) later]
      rfl

/-- Where no command extends a pause beyond its word, all of them are decoded in words. -/
theorem checkedDecodeSpots_of_not_outgrows
    (small : ∀ spot ∈ spots, spot.stream.bytes.size < 2 ^ 32) (hstatus : status.Fits)
    (fits : ¬ Outgrows driver spots status) :
    checkedDecodeSpots driver spots status = .ok (decodeSpots driver spots status) := by
  induction spots generalizing status with
  | nil => rfl
  | cons spot spots ih =>
    obtain ⟨first, others⟩ := List.forall_mem_cons.mp small
    rw [outgrows_cons, not_or] at fits
    rw [checkedDecodeSpots, checkedDecodeSpot_of_not_overfills first hstatus fits.1, ok_bind]
    dsimp only
    rw [ih others (fits_decodeSpot driver spot hstatus) fits.2]
    rfl

end EventStream

/-! ## How long a pause can get

A pause that is read has at most 24 bits, and every command that lengthens it adds at most 255
ticks. So it takes more than sixteen million such commands, and no pause read anew between them, to
outgrow a word. -/

/-- The last pause is as it was, or one that was read from three bytes at most. -/
def Status.PacesTo (status later : Status) : Prop :=
  later.lastWait = status.lastWait ∨ later.lastWait < 2 ^ 24

namespace Decoder

variable {s : EventStream}

/-- The decoder lengthens no pause. -/
def Paces (d : Decoder) (s : EventStream) : Prop :=
  ∀ (status : Status) place, place ≤ s.bytes.size → status.PacesTo (d status s place).1

theorem paces_plain (r : Reading Command) : (plain r).Paces s := fun _ _ _ => .inl rfl

/-- Only `next` can change the last pause, and it knows what was read. -/
theorem paces_updating {α : Type} {r : Reading α} {P : α → Prop}
    {next : Status → α → Status × Command} (h : r.Ensures s P)
    (h' : ∀ (status : Status) a, P a → status.PacesTo (next status a).1) :
    (updating r next).Paces s := by
  intro status place inside
  unfold updating
  split
  · next a after found => exact h' status a (h _ _ _ inside found).2
  · exact .inl rfl

/-- A decoder that does not touch the last pause. -/
theorem paces_of_same {α : Type} {r : Reading α} {next : Status → α → Status × Command}
    (same : ∀ (status : Status) a, (next status a).1.lastWait = status.lastWait) :
    (updating r next).Paces s := by
  intro status place _
  unfold updating
  split
  · exact .inl (same status _)
  · exact .inl rfl

/-- A table of opcodes paces if all its lines do. -/
theorem paces_byOpcode {table : UInt8 → Decoder} (h : ∀ op, (table op).Paces s) :
    (byOpcode table).Paces s := by
  intro status place _
  unfold byOpcode
  split
  · next op hop => exact h op status _ (Bytes.lt_size_of_getElem? hop)
  · exact .inl rfl

end Decoder

namespace EventStream

variable {s : EventStream} {driver : SoundDriver} {spot : Spot} {spots : List Spot}
  {status : Status} {place : Nat}

theorem M4a.paces_perform (op : UInt8) : (M4a.perform op).Paces s := by
  unfold M4a.perform
  split
  · exact Decoder.paces_plain _
  · split
    · exact fun _ _ _ => .inl rfl
    · split <;> exact fun _ _ _ => .inl rfl

/-- Running status remembers an opcode, not a pause. -/
theorem M4a.paces_decoder : M4a.decoder.Paces s := by
  intro status place inside
  unfold M4a.decoder
  split
  · exact .inl rfl
  · next op hop =>
    split
    · have kept : (M4a.Status.remember status op).lastWait = status.lastWait := by
        unfold M4a.Status.remember
        split <;> rfl
      have paces := M4a.paces_perform op (M4a.Status.remember status op) (place + 1)
        (Bytes.lt_size_of_getElem? hop)
      unfold Status.PacesTo at paces ⊢
      rwa [kept] at paces
    · split
      · exact M4a.paces_perform _ status place inside
      · exact .inl rfl

/-- The other drivers do not remember pauses at all. -/
theorem Mlss.paces_decoder : Mlss.decoder.Paces s := by
  refine Decoder.paces_byOpcode fun op => ?_
  split
  · exact Decoder.paces_of_same fun _ _ => rfl
  · exact Decoder.paces_plain _

theorem Sdat.paces_decoder : Sdat.decoder.Paces s := by
  refine Decoder.paces_byOpcode fun op => ?_
  split
  · exact Decoder.paces_of_same fun _ _ => rfl
  · exact Decoder.paces_plain _

/-- A note remembers its own duration, which is not a pause. -/
theorem Dse.paces_note (velocity : Nat) : (Dse.note velocity).Paces s := by
  intro status place _
  unfold Dse.note
  split
  · exact .inl rfl
  · dsimp only [Decoder.updating]
    split <;> exact .inl rfl

/-- All pauses but one are read anew or left alone. -/
theorem Dse.paces_perform {op : UInt8} (other : op ≠ 0x91) : (Dse.perform op).Paces s := by
  -- a pause that is read forgets the one before, and it is read from three bytes at most
  have anew : ∀ {r : Reading Nat}, r.Ensures s (· < 2 ^ 24) →
      (Decoder.updating r Dse.pause).Paces s := fun hr =>
    Decoder.paces_updating hr fun _ _ short => .inr short
  have byte : Reading.unsigned.Ensures s (· < 2 ^ 24) := fun place n after inside read =>
    (Reading.ensures_unsigned place n after inside read).imp_right (Nat.lt_trans · (by decide))
  unfold Dse.perform
  split
  · exact Dse.paces_note _
  · split
    · next ticks found =>
      have bound : ∀ ticks ∈ Dse.pauses, ticks < 2 ^ 24 := by decide
      exact anew (Reading.ensures_pure (bound ticks (Array.mem_of_getElem? found)))
    · split
      · exact Decoder.paces_of_same fun _ _ => rfl
      · exact absurd rfl other
      · exact anew byte
      · exact anew byte
      · refine anew fun place n after inside read => ?_
        exact (Reading.ensures_little 2 place n after inside read).imp_right
          (Nat.lt_trans · (by decide))
      · exact anew (Reading.ensures_little 3)
      · exact Decoder.paces_of_same fun _ _ => rfl
      · exact Decoder.paces_of_same fun _ _ => rfl
      · exact Decoder.paces_plain _

/-- The status is left as the decoder leaves it, found or not. -/
theorem decode_fst (driver : SoundDriver) (s : EventStream) (cursor : Nat) (status : Status) :
    (s.decode driver cursor status).1 = (driver.decoder status s cursor).1 := by
  unfold decode decodeWith
  split <;> next found => rw [found]

/-- The command there adds these ticks to the last pause. -/
structure Spot.Lengthens (spot : Spot) (driver : SoundDriver) (ticks : UInt8) : Prop where
  driver_eq : driver = .dse
  /-- The opcode that lengthens the last pause. -/
  opcode : spot.stream.bytes[spot.cursor]? = some 0x91
  argument : spot.stream.bytes[spot.cursor + 1]? = some ticks

/-- The one opcode that adds to the last pause. -/
theorem Dse.perform_lengthen (status : Status) (s : EventStream) (place : Nat) :
    Dse.perform 0x91 status s place =
      match s.bytes[place]? with
      | some ticks =>
        ({ status with lastWait := status.lastWait + ticks.toNat },
          .ok (.wait (status.lastWait + ticks.toNat), place + 1))
      | none => (status, .error .ended) := by
  -- the table has one line for this opcode
  have line : Dse.perform 0x91 = .updating .unsigned fun status ticks =>
      Dse.pause status (status.lastWait + ticks) := by
    unfold Dse.perform
    rw [if_neg (by decide)]
    rfl
  rw [line, Decoder.updating, unsigned_eq]
  cases s.bytes[place]? <;> rfl

/-- The same in plain numbers. -/
theorem decoder_dse {op : UInt8} (found : s.bytes[place]? = some op) :
    SoundDriver.dse.decoder status s place = Dse.perform op status s (place + 1) := by
  change Decoder.byOpcode _ status s place = _
  unfold Decoder.byOpcode
  rw [found]

/-- Where a pause is lengthened, it is lengthened by the argument. -/
theorem Spot.Lengthens.lastWait_eq {ticks : UInt8} (h : spot.Lengthens driver ticks)
    (status : Status) :
    (spot.stream.decode driver spot.cursor status).1.lastWait =
      status.lastWait + ticks.toNat := by
  obtain ⟨rfl, opcode, argument⟩ := h
  rw [decode_fst, decoder_dse opcode, Dse.perform_lengthen, argument]

/-- Everywhere else it is as it was, or read anew. -/
theorem pacesTo_of_not_lengthens (none : ¬ ∃ ticks, spot.Lengthens driver ticks)
    (status : Status) : status.PacesTo (spot.stream.decode driver spot.cursor status).1 := by
  rw [decode_fst]
  rcases Nat.lt_or_ge spot.cursor spot.stream.bytes.size with inside | beyond
  · cases driver with
    | m4a => exact M4a.paces_decoder status spot.cursor (Nat.le_of_lt inside)
    | mlss => exact Mlss.paces_decoder status spot.cursor (Nat.le_of_lt inside)
    | sdat => exact Sdat.paces_decoder status spot.cursor (Nat.le_of_lt inside)
    | dse =>
      have opcode := getElem?_pos spot.stream.bytes spot.cursor inside
      rw [decoder_dse opcode]
      -- even the opcode that lengthens does nothing if its argument is missing
      by_cases lengthens : spot.stream.bytes[spot.cursor] = 0x91
      · rw [lengthens] at opcode ⊢
        rw [Dse.perform_lengthen]
        cases argument : spot.stream.bytes[spot.cursor + 1]? with
        | none => exact .inl rfl
        | some ticks => exact absurd ⟨ticks, rfl, opcode, argument⟩ none
      · exact Dse.paces_perform lengthens status _ inside
  · rw [decoder_of_size_le driver status beyond]
    exact .inl rfl

/-- What becomes of the last pause where a command is decoded. -/
theorem lastWait_decodeSpot (driver : SoundDriver) (spot : Spot) (status : Status) :
    (∃ ticks, spot.Lengthens driver ticks ∧
      (spot.stream.decode driver spot.cursor status).1.lastWait =
        status.lastWait + ticks.toNat) ∨
    status.PacesTo (spot.stream.decode driver spot.cursor status).1 := by
  by_cases h : ∃ ticks, spot.Lengthens driver ticks
  · obtain ⟨ticks, lengthens⟩ := h
    exact .inl ⟨ticks, lengthens, lengthens.lastWait_eq status⟩
  · exact .inr (pacesTo_of_not_lengthens h status)

/-- Each command adds a byte at most to what the first can have left behind. -/
theorem lastWait_decodeSpots_le {n : Nat} (spots : List Spot)
    (start : status.lastWait ≤ 255 * n + (2 ^ 24 - 256)) :
    (decodeSpots .dse spots status).1.lastWait ≤ 255 * (n + spots.length) + (2 ^ 24 - 256) := by
  induction spots generalizing status n with
  | nil => exact start
  | cons spot spots ih =>
    have first : (spot.stream.decode .dse spot.cursor status).1.lastWait ≤
        255 * (n + 1) + (2 ^ 24 - 256) := by
      rcases lastWait_decodeSpot .dse spot status with ⟨ticks, -, grown⟩ | same | short
      · have := ticks.toNat_lt
        omega
      · omega
      · omega
    have later := ih first
    rw [Nat.add_assoc, Nat.add_comm 1] at later
    exact later

/-- A few commands do not get that far. -/
theorem not_outgrows_of_length_le (few : spots.length ≤ 2 ^ 24 + 1) :
    ¬ Outgrows .dse spots {} := by
  rintro ⟨earlier, spot, later, rfl, -, -, ticks, -, long⟩
  have fresh : ({} : Status).lastWait ≤ 255 * 0 + (2 ^ 24 - 256) := Nat.zero_le _
  have bound := lastWait_decodeSpots_le earlier fresh
  have := ticks.toNat_lt
  rw [List.length_append, List.length_cons] at few
  omega

/-- However commands are decoded one after the other, from a fresh status, in any streams shorter
than 2^32 bytes and at any places: words are enough, and each of the commands is found, or the error
in it, unless there is one that lengthens the last pause of a DSE stream beyond 32 bits. Then the
calculation ends right there. With 2^24 + 1 commands it does not come to that, and never with the
other drivers. -/
theorem decodes_in_words (driver : SoundDriver) (spots : List Spot)
    (small : ∀ spot ∈ spots, spot.stream.bytes.size < 2 ^ 32) :
    (¬ Outgrows driver spots {} →
      checkedDecodeSpots driver spots {} = .ok (decodeSpots driver spots {})) ∧
    (Outgrows driver spots {} →
      checkedDecodeSpots driver spots {} = .error (.full .lastPause)) ∧
    (driver ≠ .dse ∨ spots.length ≤ 2 ^ 24 + 1 → ¬ Outgrows driver spots {}) := by
  have fresh : ({} : Status).Fits := ⟨by decide, by decide⟩
  refine ⟨checkedDecodeSpots_of_not_outgrows small fresh,
    checkedDecodeSpots_of_outgrows small fresh, ?_⟩
  rintro (other | few) outgrows
  · obtain ⟨_, _, _, _, overfills⟩ := outgrows
    exact other overfills.driver_eq
  · have isDse : driver = .dse := by
      obtain ⟨_, _, _, _, overfills⟩ := outgrows
      exact overfills.driver_eq
    exact not_outgrows_of_length_le few (isDse ▸ outgrows)

/-- A stream of DSE: the longest pause that can be read, and a command that adds the most to it. -/
def longestPauses : EventStream := { bytes := ⟨#[0x94, 0xFF, 0xFF, 0xFF, 0x91, 0xFF]⟩ }

theorem decodes_in_words_longestPauses :
    let spots : List Spot := [⟨longestPauses, 0⟩, ⟨longestPauses, 4⟩, ⟨longestPauses, 9⟩]
    (∀ spot ∈ spots, spot.stream.bytes.size < 2 ^ 32) ∧ spots.length ≤ 2 ^ 24 + 1 ∧
      checkedDecodeSpots .dse spots {} =
        .ok ({ lastWait := 16777470 },
          [.ok ⟨.wait 16777215, 4⟩, .ok ⟨.wait 16777470, 2⟩, .error (.unexpectedEnd 9)]) := by
  intro spots
  have small : ∀ spot ∈ spots, spot.stream.bytes.size < 2 ^ 32 := by
    intro spot mem
    have same : spot.stream = longestPauses := by
      simp only [spots, List.mem_cons, List.not_mem_nil, or_false] at mem
      rcases mem with rfl | rfl | rfl <;> rfl
    rw [same]
    decide
  have few : spots.length ≤ 2 ^ 24 + 1 := by decide
  obtain ⟨fine, -, never⟩ := decodes_in_words .dse spots small
  exact ⟨small, few, fine (never (.inr few))⟩

/-- The longest pause, lengthened as much as possible `n` times. -/
theorem decodeSpots_longestPauses (n : Nat) :
    (decodeSpots .dse (⟨longestPauses, 0⟩ :: List.replicate n ⟨longestPauses, 4⟩) {}).1 =
      { lastWait := 2 ^ 24 - 1 + 255 * n } := by
  have lengthened (n pause : Nat) :
      (decodeSpots .dse (List.replicate n ⟨longestPauses, 4⟩) { lastWait := pause }).1 =
        { lastWait := pause + 255 * n } := by
    induction n generalizing pause with
    | zero => rfl
    | succ n ih =>
      have grown : pause + 255 + 255 * n = pause + 255 * (n + 1) := by omega
      rw [List.replicate_succ, decodeSpots, ← grown, ← ih]
      rfl
  exact lengthened n _

/-- Lengthened so often, a pause just fits 32 bits, and once more it does not: the calculation ends
without a command and without an error of the stream. -/
theorem longestPauses_outgrow :
    (decodeSpots .dse (⟨longestPauses, 0⟩ :: List.replicate (2 ^ 24) ⟨longestPauses, 4⟩) {}).1 =
        { lastWait := 2 ^ 32 - 1 } ∧
      checkedDecodeSpots .dse
          ((⟨longestPauses, 0⟩ :: List.replicate (2 ^ 24) ⟨longestPauses, 4⟩) ++
            [⟨longestPauses, 4⟩]) {} = .error (.full .lastPause) := by
  -- the longest pause of three bytes and 2 ^ 24 bytes make up all of 32 bits
  have longest : 2 ^ 24 - 1 + 255 * 2 ^ 24 = 2 ^ 32 - 1 := by decide
  have before := decodeSpots_longestPauses (2 ^ 24)
  rw [longest] at before
  refine ⟨before, checkedDecodeSpots_of_outgrows ?_ ⟨by decide, by decide⟩ ?_⟩
  · intro spot mem
    have same : spot.stream = longestPauses := by
      rcases List.mem_append.mp mem with mem | mem
      · rcases List.mem_cons.mp mem with rfl | mem
        · rfl
        · rw [List.eq_of_mem_replicate mem]
      · rw [List.mem_singleton.mp mem]
    rw [same]
    decide
  · refine ⟨_, ⟨longestPauses, 4⟩, [], rfl, rfl, rfl, 0xFF, rfl, ?_⟩
    rw [before]
    decide

end EventStream
end Chiptune
