import Chiptune.Proofs.EventStream.Range
import Chiptune.Proofs.Playhead.Phrase
import Mathlib.Data.Nat.Digits.Lemmas
import Mathlib.Tactic.MkIffOfInductiveProp

/-!
# Numbers of variable length

A number of ticks takes as many bytes as it needs. It is written with its digits to the base 128,
the most significant one first, and the high bit of a byte tells that there is another one behind it
(`Varlen.written`). Nothing else tells where the number ends. A reader that went on for too long or
stopped too early would take the rest of the stream for something that it is not.

A row of bytes is `Varlen.Whole` if it ends with the first byte that tells that it is the last one,
or for want of room, with the fourth one. At every place, a stream either holds such a row or ends
within one (`EventStream.exists_whole_or_endsWithin`). In the first case the row is read to its end,
for the `Varlen.value` of its low bits, and in the second case nothing is read. A row that was
written for a number is whole and has the number as its value, so reading finds the number and its
length again (`Varlen.number_tells_its_length`).
-/

namespace Chiptune

open Bytes

/-! ## What is written

A number is written by its digits to the base 128. Leading zeros are not written. -/

namespace Varlen

variable {b : UInt8} {l : List UInt8} {limit n : Nat}

/-- The bytes of a number: its digits to the base 128, the most significant one first, with the high
bit set on all of them but the last. Zero has a digit too. -/
def written (n : Nat) : List UInt8 :=
  (Nat.digits 128 (n / 128)).reverse.map (fun digit => UInt8.ofNat (128 + digit)) ++
    [UInt8.ofNat (n % 128)]

/-- The number that the low seven bits of some bytes make up, the most significant ones first. -/
def value (l : List UInt8) : Nat := Nat.ofDigits 128 (l.reverse.map fun b => b.toNat % 128)

theorem value_nil : value [] = 0 := rfl

/-- The first byte of a row is its highest digit. -/
theorem value_cons (b : UInt8) (l : List UInt8) :
    value (b :: l) = 128 ^ l.length * (b.toNat % 128) + value l := by
  rw [value, List.reverse_cons, List.map_append, Nat.ofDigits_append, List.length_map,
    List.length_reverse, List.map_singleton, Nat.ofDigits_singleton, Nat.add_comm, value]

/-- What is written for a number has this number as its value. -/
theorem value_written (n : Nat) : value (written n) = n := by
  have last : (UInt8.ofNat (n % 128)).toNat % 128 = n % 128 := by
    rw [UInt8.toNat_ofNat']
    omega
  have others : ((Nat.digits 128 (n / 128)).map fun digit => UInt8.ofNat (128 + digit)).map
      (fun b => b.toNat % 128) = Nat.digits 128 (n / 128) := by
    rw [List.map_map]
    refine (List.map_congr_left fun digit hdigit => ?_).trans (List.map_id' _)
    have small := Nat.digits_lt_base (by decide) hdigit
    rw [Function.comp_apply, UInt8.toNat_ofNat']
    omega
  -- digits are listed from the least significant one on
  rw [value, written, List.reverse_append, List.reverse_singleton, List.singleton_append,
    List.map_cons, ← List.map_reverse, List.reverse_reverse, others, last, Nat.ofDigits_cons,
    Nat.ofDigits_digits]
  exact Nat.mod_add_div n 128

example : written 128 = [0x81, 0x00] ∧ value [0x81, 0x00] = 128 := by decide

/-! ## What is whole

A row of bytes is a whole number if its last byte, and no other, has a clear high bit. This tells
where a number ends without telling what it is. -/

/-- The bytes are all of a number that may take up to `limit` bytes. -/
@[mk_iff]
structure Whole (limit : Nat) (l : List UInt8) : Prop where
  length_le : l.length ≤ limit
  /-- Each byte in front of the last one tells that there is another one. -/
  followed : ∀ b ∈ l.dropLast, 0x80 ≤ b
  /-- The last byte tells that it is the last one, unless there is no room for more. -/
  ended : l.length = limit ∨ ∃ b ∈ l.getLast?, b < 0x80

theorem whole_zero_iff : Whole 0 l ↔ l = [] := by
  constructor
  · intro whole
    exact List.length_eq_zero_iff.mp (Nat.le_zero.mp whole.length_le)
  · rintro rfl
    exact ⟨Nat.le_refl _, fun _ h => (by cases h), .inl rfl⟩

theorem not_whole_nil : ¬ Whole (limit + 1) [] := by
  rintro ⟨-, -, full | ⟨b, last, -⟩⟩
  · cases full
  · cases last

/-- Behind a byte that tells that it is the last one, nothing belongs to the number. -/
theorem whole_cons_of_lt (small : b < 0x80) : Whole (limit + 1) (b :: l) ↔ l = [] := by
  constructor
  · intro whole
    cases l with
    | nil => rfl
    | cons c l => exact absurd small (UInt8.not_lt.mpr (whole.followed b (by simp)))
  · rintro rfl
    exact ⟨by simp, fun _ h => (by cases h), .inr ⟨b, rfl, small⟩⟩

/-- Behind a byte that tells that there is another one stands the rest of the number. -/
theorem whole_cons_of_le (large : 0x80 ≤ b) : Whole (limit + 1) (b :: l) ↔ Whole limit l := by
  cases l with
  | nil => simp [whole_iff, UInt8.not_lt.mpr large, eq_comm]
  | cons c l => simp [whole_iff, large]

/-- What is written for a number is whole, if as many bytes are allowed as it needs. -/
theorem whole_written (small : n < 128 ^ (limit + 1)) : Whole (limit + 1) (written n) := by
  have digits : (Nat.digits 128 (n / 128)).length ≤ limit := by
    rw [Nat.digits_length_le_iff (by decide)]
    exact Nat.div_lt_of_lt_mul (by rwa [Nat.mul_comm, ← Nat.pow_succ])
  refine ⟨by simpa [written] using digits, fun b hb => ?_, .inr ⟨UInt8.ofNat (n % 128), ?_, ?_⟩⟩
  · rw [written, List.dropLast_concat] at hb
    obtain ⟨digit, hdigit, rfl⟩ := List.mem_map.mp hb
    have := Nat.digits_lt_base (by decide) (List.mem_reverse.mp hdigit)
    rw [UInt8.le_iff_toNat_le, UInt8.toNat_ofNat']
    change 128 ≤ _
    omega
  · simp [written]
  · rw [UInt8.lt_iff_toNat_lt, UInt8.toNat_ofNat']
    change _ < 128
    omega

end Varlen

/-- The stream ends within a number of up to `limit` bytes that starts at `place`: fewer bytes than
that are left, and each of them tells that there is another one. -/
structure EventStream.EndsWithin (s : EventStream) (limit place : Nat) : Prop where
  /-- Fewer bytes are left than a number may take. -/
  short : s.bytes.size - place < limit
  /-- All of them tell that another one follows. -/
  followed : ∀ i b, place ≤ i → s.bytes[i]? = some b → 0x80 ≤ b

open Varlen

/-- Either a number is there as a whole, or the stream ends within it. -/
theorem EventStream.exists_whole_or_endsWithin (s : EventStream) (limit place : Nat) :
    (∃ l, Holds s.bytes place l ∧ Whole limit l) ∨ s.EndsWithin limit place := by
  induction limit generalizing place with
  | zero => exact .inl ⟨[], holds_nil, whole_zero_iff.mpr rfl⟩
  | succ limit ih =>
    cases found : s.bytes[place]? with
    | none =>
      -- no byte is left that could tell anything
      have beyond : s.bytes.size ≤ place := by
        by_contra inside
        rw [getElem?_pos s.bytes place (Nat.not_le.mp inside)] at found
        cases found
      refine .inr ⟨by omega, fun i b later found => ?_⟩
      have inside := lt_size_of_getElem? found
      omega
    | some b =>
      have inside := lt_size_of_getElem? found
      rcases UInt8.lt_or_le b 0x80 with small | large
      · exact .inl ⟨[b], holds_cons.mpr ⟨found, holds_nil⟩, (whole_cons_of_lt small).mpr rfl⟩
      · rcases ih (place + 1) with ⟨l, held, whole⟩ | ends
        · exact .inl ⟨b :: l, holds_cons.mpr ⟨found, held⟩, (whole_cons_of_le large).mpr whole⟩
        · have short := ends.short
          refine .inr ⟨by omega, fun i c later found' => ?_⟩
          rcases Nat.eq_or_lt_of_le later with rfl | later
          · cases found.symm.trans found'
            exact large
          · exact ends.followed i c later found'

/-! ## What is read

A reader with a limit takes a whole row that is short enough, and gives its value. It fails if and
only if the stream ends within such a row. Rows with leading zeros are read as well. -/

namespace Reading

variable {s : EventStream} {place after limit acc n : Nat} {b : UInt8} {l : List UInt8}
  {d : Defect}

-- There is no byte, or it tells that it is the last one, or that there is another one.

theorem varlenFrom_of_none (beyond : s.bytes[place]? = none) :
    varlenFrom (limit + 1) acc s place = .error .ended := by
  simp [varlenFrom, unsigned, byte, fixed, bind_apply, beyond]

theorem varlenFrom_of_lt (found : s.bytes[place]? = some b) (small : b < 0x80) :
    varlenFrom (limit + 1) acc s place = .ok (128 * acc + b.toNat % 128, place + 1) := by
  have small : b.toNat < 128 := small
  simp [varlenFrom, unsigned, byte, fixed, bind_apply, found, small]

theorem varlenFrom_of_le (found : s.bytes[place]? = some b) (large : 0x80 ≤ b) :
    varlenFrom (limit + 1) acc s place =
      varlenFrom limit (128 * acc + b.toNat % 128) s (place + 1) := by
  have large : ¬ b.toNat < 128 := Nat.not_lt.mpr large
  simp [varlenFrom, unsigned, byte, fixed, bind_apply, found, large]

/-- A row that is whole is read to its end. What was read before stands in front of its digits. -/
theorem varlenFrom_of_whole (held : Holds s.bytes place l) (whole : Whole limit l) :
    varlenFrom limit acc s place = .ok (128 ^ l.length * acc + value l, place + l.length) := by
  induction limit generalizing acc place l with
  | zero =>
    obtain rfl := whole_zero_iff.mp whole
    simp [varlenFrom, value_nil]
  | succ limit ih =>
    cases l with
    | nil => exact absurd whole not_whole_nil
    | cons b l =>
      obtain ⟨found, held⟩ := holds_cons.mp held
      rcases UInt8.lt_or_le b 0x80 with small | large
      · obtain rfl := (whole_cons_of_lt small).mp whole
        rw [varlenFrom_of_lt found small]
        simp [value_cons, value_nil]
      · have number : 128 ^ l.length * (128 * acc + b.toNat % 128) + value l =
            128 ^ (b :: l).length * acc + value (b :: l) := by
          rw [value_cons, List.length_cons]
          ring
        have behind : place + 1 + l.length = place + (b :: l).length := by
          rw [List.length_cons]
          omega
        rw [varlenFrom_of_le found large, ih held ((whole_cons_of_le large).mp whole), number,
          behind]

/-- A number that the stream ends within is never read. -/
theorem varlenFrom_of_endsWithin (ends : s.EndsWithin limit place) :
    varlenFrom limit acc s place = .error .ended := by
  induction limit generalizing acc place with
  | zero => exact absurd ends.short (Nat.not_lt_zero _)
  | succ limit ih =>
    cases found : s.bytes[place]? with
    | none => exact varlenFrom_of_none found
    | some b =>
      have inside := lt_size_of_getElem? found
      have short := ends.short
      rw [varlenFrom_of_le found (ends.followed place b (Nat.le_refl _) found)]
      exact ih ⟨by omega, fun i b later => ends.followed i b (Nat.le_of_succ_le later)⟩

theorem varlen_of_whole (held : Holds s.bytes place l) (whole : Whole 4 l) :
    varlen s place = .ok (value l, place + l.length) := by
  rw [varlen, varlenFrom_of_whole held whole, Nat.mul_zero, Nat.zero_add]

theorem varlen_of_endsWithin (ends : s.EndsWithin 4 place) : varlen s place = .error .ended :=
  varlenFrom_of_endsWithin ends

/-- What is written for a number is read as this number. -/
theorem varlen_of_written (small : n < 2 ^ 28) (held : Holds s.bytes place (written n)) :
    varlen s place = .ok (n, place + (written n).length) := by
  rw [varlen_of_whole held (whole_written small), value_written]

/-- A number is read exactly where there is a whole one. -/
theorem varlen_eq_ok_iff :
    varlen s place = .ok (n, after) ↔
      ∃ l, Holds s.bytes place l ∧ Whole 4 l ∧ n = value l ∧ after = place + l.length := by
  constructor
  · intro read
    rcases s.exists_whole_or_endsWithin 4 place with ⟨l, held, whole⟩ | ends
    · rw [varlen_of_whole held whole] at read
      cases read
      exact ⟨l, held, whole, rfl, rfl⟩
    · rw [varlen_of_endsWithin ends] at read
      cases read
  · rintro ⟨l, held, whole, rfl, rfl⟩
    exact varlen_of_whole held whole

/-- The only thing that can go wrong is that the stream ends too soon. -/
theorem varlen_eq_error_iff :
    varlen s place = .error d ↔ d = .ended ∧ s.EndsWithin 4 place := by
  constructor
  · intro read
    rcases s.exists_whole_or_endsWithin 4 place with ⟨l, held, whole⟩ | ends
    · rw [varlen_of_whole held whole] at read
      cases read
    · rw [varlen_of_endsWithin ends] at read
      cases read
      exact ⟨rfl, ends⟩
  · rintro ⟨rfl, ends⟩
    exact varlen_of_endsWithin ends

end Reading

/-! ## Commands with a number

Rests, programs and notes of SDAT have a number at their end. So it is the number that tells how
long the command is, and when it cannot be decoded. -/

/-- A command of SDAT that has a number at its end: the bytes in front of the number, and what the
number makes of them. -/
inductive EventStream.Sdat.TakesNumber : List UInt8 → (Nat → Command) → Prop
  | wait : TakesNumber [0x80] .wait
  /-- Programs are numbered by a byte. -/
  | program : TakesNumber [0x81] fun n => .program (min n 255)
  /-- The number is how long the note is. -/
  | note {key velocity : UInt8} (isKey : key < 0x80) :
    TakesNumber [key, velocity] fun n => .noteOn key.toNat (min velocity.toNat 127) (some n)

namespace EventStream

variable {s : EventStream} {cursor : Nat} {front : List UInt8} {make : Nat → Command}

/-- Such a command is read by reading its number. -/
theorem Sdat.decoder_of_takesNumber (takes : Sdat.TakesNumber front make)
    (held : Holds s.bytes cursor front) (status : Status) :
    (Sdat.decoder status s cursor).2 =
      (Reading.varlen >>= fun n => pure (make n) : Reading Command) s (cursor + front.length) := by
  have opcode : ∀ {op : UInt8} {rest : List UInt8}, front = op :: rest →
      Sdat.decoder status s cursor = (if op < 0x80 then Sdat.note op.toNat
        else .plain (Sdat.plain op)) status s (cursor + 1) := by
    rintro op rest rfl
    simp only [Sdat.decoder, Decoder.byOpcode, held.head]
  cases takes with
  | wait =>
    rw [opcode rfl]
    rfl
  | program =>
    rw [opcode rfl]
    rfl
  | @note key velocity isKey =>
    have loud : Reading.sevenBit s (cursor + 1) = .ok (min velocity.toNat 127, cursor + 2) := by
      simp [Reading.sevenBit, Reading.unsigned, Reading.byte, Reading.fixed, Reading.bind_apply,
        held.tail.head]
    rw [opcode rfl, if_pos isKey]
    simp only [Sdat.note, Decoder.updating, Reading.bind_apply, loud, List.length_cons,
      List.length_nil]
    cases Reading.varlen s (cursor + 2) <;> rfl

/-- The length of the command is told by where its number ends. -/
theorem Sdat.decode_of_takesNumber (takes : Sdat.TakesNumber front make)
    (held : Holds s.bytes cursor front) (status : Status) :
    (s.decode .sdat cursor status).2 =
      match Reading.varlen s (cursor + front.length) with
      | .ok (n, after) => .ok ⟨make n, after - cursor⟩
      | .error d => .error (d.at cursor) := by
  rw [decode, decodeWith_snd, SoundDriver.decoder, Sdat.decoder_of_takesNumber takes held,
    Reading.bind_apply]
  cases Reading.varlen s (cursor + front.length) <;> rfl

/-- What is written for the number is decoded as a command with this number. -/
theorem Sdat.decode_of_written {n : Nat} (takes : Sdat.TakesNumber front make) (small : n < 2 ^ 28)
    (held : Holds s.bytes cursor (front ++ written n)) (status : Status) :
    (s.decode .sdat cursor status).2 = .ok ⟨make n, (front ++ written n).length⟩ := by
  obtain ⟨inFront, number⟩ := holds_append.mp held
  rw [Sdat.decode_of_takesNumber takes inFront, Reading.varlen_of_written small number]
  dsimp only
  rw [Nat.add_assoc, Nat.add_sub_cancel_left, List.length_append]

/-- A command that is written up to its number fails only if the stream ends within it. -/
theorem Sdat.decode_eq_error_iff {e : DecodeError} (takes : Sdat.TakesNumber front make)
    (held : Holds s.bytes cursor front) (status : Status) :
    (s.decode .sdat cursor status).2 = .error e ↔
      e = .unexpectedEnd cursor ∧ s.EndsWithin 4 (cursor + front.length) := by
  rw [Sdat.decode_of_takesNumber takes held]
  constructor
  · intro decoded
    split at decoded
    · cases decoded
    · next d read =>
      obtain ⟨rfl, ends⟩ := Reading.varlen_eq_error_iff.mp read
      cases decoded
      exact ⟨rfl, ends⟩
  · rintro ⟨rfl, ends⟩
    rw [Reading.varlen_of_endsWithin ends]
    rfl

end EventStream

namespace Varlen

/-- A number tells its own length. At every place of every stream, what was written for a number
below 2 ^ 28 is read as this number, up to its last byte and no further. Whatever else stands there,
just what makes up a whole number of four bytes at most is read, for its value, and there is an
error exactly if the stream ends within the number.

So it is for the commands of SDAT that have a number at their end. Where the number was written for
`n`, the command is found with `n` and with the length of all its bytes. The stream can end within
the number, which is an error at the offset of the command, and nothing else can be wrong. -/
theorem number_tells_its_length (s : EventStream) :
    (∀ place,
      (∀ n < 2 ^ 28, Holds s.bytes place (written n) →
        Reading.varlen s place = .ok (n, place + (written n).length)) ∧
      (∀ n after, Reading.varlen s place = .ok (n, after) ↔
        ∃ l, Holds s.bytes place l ∧ Whole 4 l ∧ n = value l ∧ after = place + l.length) ∧
      ∀ d, Reading.varlen s place = .error d ↔ d = .ended ∧ s.EndsWithin 4 place) ∧
    ∀ front make, EventStream.Sdat.TakesNumber front make → ∀ cursor status,
      (∀ n < 2 ^ 28, Holds s.bytes cursor (front ++ written n) →
        (s.decode .sdat cursor status).2 = .ok ⟨make n, (front ++ written n).length⟩) ∧
      (Holds s.bytes cursor front → ∀ e, (s.decode .sdat cursor status).2 = .error e ↔
        e = .unexpectedEnd cursor ∧ s.EndsWithin 4 (cursor + front.length)) := by
  refine ⟨fun place => ⟨fun n small held => ?_, fun n after => ?_, fun d => ?_⟩,
    fun front make takes cursor status => ⟨fun n small held => ?_, fun held e => ?_⟩⟩
  · exact Reading.varlen_of_written small held
  · exact Reading.varlen_eq_ok_iff
  · exact Reading.varlen_eq_error_iff
  · exact EventStream.Sdat.decode_of_written takes small held status
  · exact EventStream.Sdat.decode_eq_error_iff takes held status

/-- A stream of SDAT: a rest of 128 ticks, a note of 1000 ticks, and a rest that lacks the end of
its number. -/
def cutRest : EventStream :=
  { bytes := ⟨#[0x80, 0x81, 0x00, 60, 100, 0x87, 0x68, 0x80, 0x81, 0x80]⟩ }

theorem number_tells_its_length_cutRest :
    128 < 2 ^ 28 ∧ Holds cutRest.bytes 0 ([0x80] ++ written 128) ∧
      1000 < 2 ^ 28 ∧ Holds cutRest.bytes 3 ([60, 100] ++ written 1000) ∧
      Holds cutRest.bytes 7 [0x80] ∧ cutRest.EndsWithin 4 8 ∧
      Reading.varlen cutRest 5 = .ok (1000, 7) ∧
      Reading.varlen cutRest 8 = .error .ended ∧
      (cutRest.decode .sdat 0 {}).2 = .ok ⟨.wait 128, 3⟩ ∧
      (cutRest.decode .sdat 3 {}).2 = .ok ⟨.noteOn 60 100 (some 1000), 4⟩ ∧
      (cutRest.decode .sdat 7 {}).2 = .error (.unexpectedEnd 7) := by
  have rest : Holds cutRest.bytes 0 ([0x80] ++ written 128) := by unfold Holds; decide
  have note : Holds cutRest.bytes 3 ([60, 100] ++ written 1000) := by unfold Holds; decide
  have cut : Holds cutRest.bytes 7 [0x80] := by unfold Holds; decide
  have ends : cutRest.EndsWithin 4 8 := by
    refine ⟨by decide, fun i b later found => ?_⟩
    have inside : i < 10 := lt_size_of_getElem? found
    obtain rfl | rfl : i = 8 ∨ i = 9 := by omega
    all_goals
      cases found
      decide
  obtain ⟨reads, commands⟩ := number_tells_its_length cutRest
  obtain ⟨restFound, -⟩ := commands _ _ .wait 0 {}
  obtain ⟨noteFound, -⟩ := commands _ _ (.note (by decide : (60 : UInt8) < 0x80)) 3 {}
  obtain ⟨-, restCut⟩ := commands _ _ .wait 7 {}
  exact ⟨by decide, rest, by decide, note, cut, ends,
    (reads 5).1 1000 (by decide) (holds_append.mp note).2, ((reads 8).2.2 .ended).mpr ⟨rfl, ends⟩,
    restFound 128 (by decide) rest, noteFound 1000 (by decide) note,
    (restCut cut _).mpr ⟨rfl, ends⟩⟩

end Varlen
end Chiptune
