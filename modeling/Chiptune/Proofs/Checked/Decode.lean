import Chiptune.Proofs.Checked.Basic
import Chiptune.Proofs.EventStream.Range

/-!
# Decoding in words

The opcode tables calculate little: a reader moves on byte by byte, tables of ticks are read, and
here and there an argument is scaled or added to what came before. Only these entries are repeated
here. All others take their arguments as they are, and stand in for themselves by
`CheckedReading.plain`.

One number grows without an end: a DSE stream can add to its last pause again and again.
-/

namespace Chiptune

open Checked

/-- A reading that calculates in words. -/
def CheckedReading (α : Type) : Type := EventStream → Nat → Checked (Except Defect (α × Nat))

namespace CheckedReading

variable {α β : Type}

def yield (a : α) : CheckedReading α := fun _ place => .ok (.ok (a, place))

def andThen (r : CheckedReading α) (next : α → CheckedReading β) : CheckedReading β :=
  fun s place => do
    match ← r s place with
    | .ok (a, after) => next a s after
    | .error d => return .error d

instance : Monad CheckedReading where
  pure := yield
  bind := andThen

/-- A reading that calculates nothing. -/
def plain (r : Reading α) : CheckedReading α := fun s place => .ok (r s place)

/-- A calculation in the course of a reading. -/
def calculate (m : Checked α) : CheckedReading α := fun _ place => do return .ok (← m, place)

def centred : CheckedReading Int := do calculate (signed 16 ((← plain .sevenBit) - 64))

def varlen : CheckedReading Nat := do calculate (word 32 (← plain .varlen))

def displacement : CheckedReading Nat := do
  let delta ← plain (.signed16 (.little 2))
  fun s place => do
    let target ← signed 64 (place + delta)
    if 0 ≤ target ∧ target < s.bytes.size then return .ok (← word 32 target.toNat, place)
    else return .error (.target (UInt32.ofInt target))

/-! ### Their results -/

variable {s : EventStream} {P : α → Prop}

/-- On the stream `s`, the reading in words gives what the plain one gives. -/
def Mirrors (m : CheckedReading α) (r : Reading α) (s : EventStream) : Prop :=
  ∀ place, place ≤ s.bytes.size → m s place = .ok (r s place)

theorem mirrors_plain (r : Reading α) : (plain r).Mirrors r s := fun _ _ => rfl

theorem mirrors_pure (a : α) : (pure a : CheckedReading α).Mirrors (pure a) s := fun _ _ => rfl

/-- What the first reading ensures is what the second calculation may rely on. -/
theorem Mirrors.bind {m : CheckedReading α} {r : Reading α} {next : α → CheckedReading β}
    {next' : α → Reading β} (h : m.Mirrors r s) (range : r.Ensures s P)
    (h' : ∀ a, P a → (next a).Mirrors (next' a) s) : (m >>= next).Mirrors (r >>= next') s := by
  intro place inside
  rw [Reading.bind_apply]
  change (m s place >>= _) = _
  rw [h place inside, ok_bind]
  cases hr : r s place with
  | error d => rfl
  | ok found =>
    obtain ⟨⟨-, inside⟩, ha⟩ := range _ _ _ inside hr
    exact h' found.1 ha found.2 inside

/-- A calculation without a trap is as good as its result. -/
theorem mirrors_calculate {m : Checked α} {a : α} (h : m = .ok a) :
    (calculate m).Mirrors (pure a) s := by
  intro place _
  rw [calculate, h]
  rfl

/-- A calculation that gives `a` may as well be left out. -/
theorem Mirrors.calculate {m : Checked α} {a : α} {next : α → CheckedReading β} {r : Reading β}
    (h : m = .ok a) (h' : (next a).Mirrors r s) :
    (CheckedReading.calculate m >>= next).Mirrors r s := by
  intro place inside
  rw [h]
  exact h' place inside

/-- A place between left and right is read from 7 bits, so it fits any word. -/
theorem mirrors_centred : centred.Mirrors .centred s :=
  (mirrors_plain _).bind Reading.ensures_sevenBit fun _ _ =>
    mirrors_calculate (signed_eq (by omega) (by omega))

/-- Four times seven bits fit into 32. -/
theorem mirrors_varlen : varlen.Mirrors .varlen s := by
  have checked : varlen.Mirrors (Reading.varlen >>= pure) s :=
    (mirrors_plain _).bind Reading.ensures_varlen fun _ _ =>
      mirrors_calculate (word_eq (by omega))
  intro place inside
  rw [checked place inside, Reading.bind_apply]
  cases Reading.varlen s place <;> rfl

/-- In a stream below 2 ^ 32 bytes, a place and a distance of 16 bits are added without harm. -/
theorem mirrors_displacement (small : s.bytes.size < 2 ^ 32) :
    displacement.Mirrors .displacement s := by
  have range := Reading.ensures_signed16 (s := s) (Reading.ensures_little 2)
  refine (mirrors_plain _).bind range fun delta h => ?_
  intro place inside
  change (signed 64 (place + delta) >>= _) = _
  rw [signed_eq (by omega) (by omega), ok_bind]
  dsimp only
  split
  · rw [word_eq (by omega)]
    rfl
  · rfl

end CheckedReading

/-- A decoder that calculates in words. -/
def CheckedDecoder : Type :=
  Status → EventStream → Nat → Checked (Status × Except Defect (Command × Nat))

namespace CheckedDecoder

/-- A decoder that calculates nothing. -/
def plain (d : Decoder) : CheckedDecoder := fun status s place => .ok (d status s place)

/-- Decode by a reading that leaves the status alone. -/
def reading (r : CheckedReading Command) : CheckedDecoder := fun status s place => do
  return (status, ← r s place)

/-- Decode by a reading whose value gives the command and, if it is read, the new status. -/
def updating {α : Type} (r : CheckedReading α) (next : Status → α → Checked (Status × Command)) :
    CheckedDecoder := fun status s place => do
  match ← r s place with
  | .ok (a, after) =>
    let (status, command) ← next status a
    return (status, .ok (command, after))
  | .error d => return (status, .error d)

/-- Calculate something before decoding. -/
def after {α : Type} (m : Checked α) (next : α → CheckedDecoder) : CheckedDecoder :=
  fun status s place => do next (← m) status s place

/-- Take the opcode under the cursor and go on with its own decoder. -/
def byOpcode (table : UInt8 → CheckedDecoder) : CheckedDecoder := fun status s place =>
  match s.bytes[place]? with
  | some op => table op status s (place + 1)
  | none => return (status, .error .ended)

/-! ### Their results -/

variable {s : EventStream}

/-- On the stream `s`, the decoder in words gives what the plain one gives. -/
def Mirrors (m : CheckedDecoder) (d : Decoder) (s : EventStream) : Prop :=
  ∀ status place, status.Fits → place ≤ s.bytes.size → Gives (m status s place) (d status s place)

theorem mirrors_plain (d : Decoder) : (plain d).Mirrors d s := fun _ _ _ _ => .ok _

/-- A plain reading leaves the status alone, in words as well. -/
theorem mirrors_reading {m : CheckedReading Command} {r : Reading Command} (h : m.Mirrors r s) :
    (reading m).Mirrors (.plain r) s := by
  intro status place _ inside
  refine .of_eq ?_
  rw [reading, h place inside]
  rfl

/-- The status that a calculation relies on is in range, and so are the numbers that were read. -/
theorem mirrors_updating {α : Type} {m : CheckedReading α} {r : Reading α}
    {next : Status → α → Checked (Status × Command)} {next' : Status → α → Status × Command}
    {P : α → Prop} (h : m.Mirrors r s) (range : r.Ensures s P)
    (h' : ∀ status a, status.Fits → P a → Gives (next status a) (next' status a)) :
    (updating m next).Mirrors (.updating r next') s := by
  intro status place hstatus inside
  unfold updating Decoder.updating
  rw [h place inside, ok_bind]
  cases hr : r s place with
  | error d => exact .ok _
  | ok found => exact (h' status found.1 hstatus (range _ _ _ inside hr).2).bind (.ok _)

/-- A table is looked up before anything is read. -/
theorem mirrors_after {α : Type} {m : Checked α} {a : α} {next : α → CheckedDecoder} {d : Decoder}
    (h : m = .ok a) (h' : (next a).Mirrors d s) : (after m next).Mirrors d s := by
  intro status place hstatus inside
  rw [after, h]
  exact h' status place hstatus inside

/-- A table of opcodes, line by line. -/
theorem mirrors_byOpcode {table : UInt8 → CheckedDecoder} {table' : UInt8 → Decoder}
    (h : ∀ op, (table op).Mirrors (table' op) s) :
    (byOpcode table).Mirrors (.byOpcode table') s := by
  intro status place hstatus inside
  unfold byOpcode Decoder.byOpcode
  cases hop : s.bytes[place]? with
  | none => exact .ok _
  | some op => exact h op status (place + 1) hstatus (Bytes.lt_size_of_getElem? hop)

end CheckedDecoder

namespace EventStream

open CheckedReading

variable {s : EventStream}

/-! ## M4A

The table of rests and that of durations are read with a check, and the argument of a note is added
to what the table gives. Everything else is read as it stands. -/

namespace M4a

def checkedPlain (op : UInt8) : CheckedReading Command :=
  match op with
  | 0xBB => do return .tempo (← calculate (word 16 (2 * (← CheckedReading.plain .unsigned))))
  | 0xBF => do return .pan (← centred)
  | 0xC0 => do return .bend (← calculate (signed 16 (128 * (← centred))))
  | _ =>
    if firstWait ≤ op ∧ op ≤ 0xB0 then do
      return .wait (← calculate do entry durations (← less op.toNat firstWait.toNat))
    else .plain (plain op)

def checkedNote (duration : Option Nat) : CheckedDecoder := fun status s place => do
  let arguments := s.arguments (if duration.isSome then 3 else 2) place
  let key := arguments[0]?.getD status.lastKey
  let velocity := arguments[1]?.getD status.lastVelocity
  let duration ← duration.mapM fun ticks => word 32 (ticks + arguments[2]?.getD 0)
  return ({ status with lastKey := key, lastVelocity := velocity },
    .ok (.noteOn key velocity duration, place + arguments.length))

def checkedPerform (op : UInt8) : CheckedDecoder :=
  if op < endNote then .reading (checkedPlain op)
  else if op = endNote then .plain noteEnd
  else if op = startNote then checkedNote none
  else .after (do entry durations (← less op.toNat startNote.toNat)) fun ticks =>
    checkedNote (some ticks)

def checkedDecoder : CheckedDecoder := fun status s place =>
  match s.bytes[place]? with
  | none => return (status, .error .ended)
  | some op =>
    if 0x80 ≤ op then checkedPerform op (Status.remember status op) s (place + 1)
    else if Repeatable status.lastOpcode then checkedPerform status.lastOpcode status s place
    else return (status, .error (.opcode op))

end M4a

/-! ## MLSS

A jump names a distance of 16 bits with a sign, which is added to the place behind it. -/

namespace Mlss

def checkedPlain (op : UInt8) : CheckedReading Command :=
  match op with
  | 0xF2 => do return .pan (← centred)
  | 0xF3 => do return .bend (← calculate (signed 16 (64 * (← CheckedReading.plain .signed))))
  | 0xF8 => do return .jump (← displacement)
  | 0xF9 => do
    let count ← CheckedReading.plain .unsigned
    let target ← displacement
    return if count = 0 then .jump target else .again target count
  | _ => .plain (plain op)

def checkedDecoder : CheckedDecoder :=
  .byOpcode fun op => if op < 0x80 then .plain (note op.toNat) else .reading (checkedPlain op)

end Mlss

/-! ## DSE

Durations are remembered and added to, and keys are put together from an octave and a step. This is
the only driver that counts anything in decoding. -/

namespace Dse

def checkedNote (velocity : Nat) : CheckedDecoder := fun status s place =>
  match Reading.unsigned s place with
  | .error d => return (status, .error d)
  | .ok (packed, place) => do
    let width := packed / 64
    let shift ← signed 16 ((packed / 16 % 4 : Nat) - 2)
    let octave := min (← signed 16 (status.octave + shift)).toNat highestOctave
    let key := min (← signed 16 (12 * octave + packed % 16 : Nat)).toNat 127
    let status := { status with octave := octave }
    let duration : Reading Nat := if width = 0 then pure status.lastDuration else .big width
    return Decoder.updating duration (fun status ticks =>
      ({ status with lastDuration := ticks, lastKey := key, lastVelocity := velocity },
        .noteOn key velocity (some ticks))) status s place

def checkedPerform (op : UInt8) : CheckedDecoder :=
  if op < 0x80 then checkedNote op.toNat
  else if op < 0x90 then
    .after (do entry pauses (← less op.toNat 0x80)) fun ticks =>
      .plain (.updating (pure ticks) pause)
  else match op with
  | 0x91 => .updating (.plain .unsigned) fun status ticks => do
    return pause status (← count .lastPause (status.lastWait + ticks))
  | 0xA1 => .updating (.plain .signed) fun status shift => do
    return setOctave status (← signed 16 (status.octave + shift))
  | 0xE8 => .reading do return .pan (← centred)
  | _ => .plain (perform op)

def checkedDecoder : CheckedDecoder := .byOpcode checkedPerform

end Dse

/-! ## SDAT

Places of 24 bits and numbers of up to four times seven bits are read, and only levels are moved to
another origin. -/

namespace Sdat

def checkedPlain (op : UInt8) : CheckedReading Command :=
  match op with
  | 0x80 => do return .wait (← varlen)
  | 0x81 => do return .program (min (← varlen) 255)
  | 0xC0 => do return .pan (← centred)
  | 0xC4 => do return .bend (← calculate (signed 16 (64 * (← CheckedReading.plain .signed))))
  | _ => .plain (plain op)

def checkedNote (key : Nat) : CheckedDecoder :=
  .updating (do return (← CheckedReading.plain .sevenBit, ← varlen)) fun status (velocity, ticks) =>
    return ({ status with lastKey := key, lastVelocity := velocity },
      .noteOn key velocity (some ticks))

def checkedDecoder : CheckedDecoder :=
  .byOpcode fun op => if op < 0x80 then checkedNote op.toNat else .reading (checkedPlain op)

end Sdat

/-! ## Their results

One lemma for each table, line by line. What a line needs to know of its arguments is their range,
which `EventStream.Range` has for all readers. -/

/-- The opcodes of rests name their ticks by their place in the table. -/
theorem M4a.plain_of_isWait {op : UInt8} (low : firstWait ≤ op) (high : op ≤ 0xB0) :
    M4a.plain op = pure (.wait (durations.getD (op.toNat - firstWait.toNat) 0)) := by
  have low : 128 ≤ op.toNat := low
  have high : op.toNat ≤ 176 := high
  have place : (op - firstWait).toNat = op.toNat - firstWait.toNat :=
    UInt8.toNat_sub_of_le _ _ low
  have found : durations[op.toNat - firstWait.toNat]? =
      some (durations.getD (op.toNat - firstWait.toNat) 0) := by
    have inside : op.toNat - firstWait.toNat < durations.size :=
      show op.toNat - 128 < 49 by omega
    rw [Array.getD_eq_getD_getElem?, Array.getElem?_eq_getElem inside, Option.getD_some]
  unfold M4a.plain
  split
  case h_21 => rw [place, found]
  all_goals exact absurd high (by decide)

/-- Only a few opcodes of M4A calculate anything. The others are read as they are. -/
theorem M4a.mirrors_checkedPlain (op : UInt8) : (M4a.checkedPlain op).Mirrors (M4a.plain op) s := by
  unfold M4a.checkedPlain
  split
  · exact (CheckedReading.mirrors_plain _).bind Reading.ensures_unsigned fun n hn =>
      .calculate (word_eq (by omega)) (mirrors_pure _)
  · exact mirrors_centred.bind Reading.ensures_centred fun _ _ => mirrors_pure _
  · exact mirrors_centred.bind Reading.ensures_centred fun _ _ =>
      .calculate (signed_eq (by omega) (by omega)) (mirrors_pure _)
  · split
    · next wait =>
      have low : firstWait.toNat ≤ op.toNat := wait.1
      have high : op.toNat ≤ 176 := wait.2
      rw [M4a.plain_of_isWait wait.1 wait.2]
      refine .calculate ?_ (mirrors_pure _)
      rw [less_eq low, ok_bind]
      exact entry_eq_getD (show op.toNat - 128 < 49 by omega) 0
    · exact CheckedReading.mirrors_plain _

/-- MLSS tells where to go by a distance, which has to be added to the place. -/
theorem Mlss.mirrors_checkedPlain (small : s.bytes.size < 2 ^ 32) (op : UInt8) :
    (Mlss.checkedPlain op).Mirrors (Mlss.plain op) s := by
  unfold Mlss.checkedPlain
  split
  · exact mirrors_centred.bind Reading.ensures_centred fun _ _ => mirrors_pure _
  · exact (CheckedReading.mirrors_plain _).bind Reading.ensures_signed fun _ _ =>
      .calculate (signed_eq (by omega) (by omega)) (mirrors_pure _)
  · exact (mirrors_displacement small).bind Reading.ensures_displacement fun _ _ => mirrors_pure _
  · exact (CheckedReading.mirrors_plain _).bind Reading.ensures_unsigned fun _ _ =>
      (mirrors_displacement small).bind Reading.ensures_displacement fun _ _ => mirrors_pure _
  · exact CheckedReading.mirrors_plain _

theorem Sdat.mirrors_checkedPlain (op : UInt8) :
    (Sdat.checkedPlain op).Mirrors (Sdat.plain op) s := by
  unfold Sdat.checkedPlain
  split
  · exact mirrors_varlen.bind Reading.ensures_varlen fun _ _ => mirrors_pure _
  · exact mirrors_varlen.bind Reading.ensures_varlen fun _ _ => mirrors_pure _
  · exact mirrors_centred.bind Reading.ensures_centred fun _ _ => mirrors_pure _
  · exact (CheckedReading.mirrors_plain _).bind Reading.ensures_signed fun _ _ =>
      .calculate (signed_eq (by omega) (by omega)) (mirrors_pure _)
  · exact CheckedReading.mirrors_plain _

theorem M4a.mirrors_checkedNote_none : (M4a.checkedNote none).Mirrors (M4a.note none) s :=
  fun _ _ _ _ => .ok _

/-- A note is at most 96 ticks and an argument of 7 bits long. -/
theorem M4a.mirrors_checkedNote_some {ticks : Nat} (h : ticks ≤ 96) :
    (M4a.checkedNote (some ticks)).Mirrors (M4a.note (some ticks)) s := by
  intro status place _ inside
  obtain ⟨-, small⟩ := s.arguments_bounds 3 inside
  have extra := getElem?_getD_le small (i := 2) (Nat.zero_le 127)
  refine .of_eq ?_
  change (word 32 (ticks + (s.arguments 3 place)[2]?.getD 0) >>= _) >>= _ = _
  rw [word_eq (by omega)]
  rfl

/-- Every duration of the table. -/
theorem M4a.durations_le {i : Nat} (h : i < 49) :
    ∃ ticks, durations[i]? = some ticks ∧ ticks ≤ 96 := by
  have bound : ∀ ticks ∈ durations, ticks ≤ 96 := by decide
  have inside : i < durations.size := h
  exact ⟨durations[i], Array.getElem?_eq_getElem inside, bound _ (Array.getElem_mem inside)⟩

theorem M4a.mirrors_checkedPerform (op : UInt8) :
    (M4a.checkedPerform op).Mirrors (M4a.perform op) s := by
  unfold M4a.checkedPerform M4a.perform
  by_cases before : op < endNote
  · rw [if_pos before, if_pos before]
    exact CheckedDecoder.mirrors_reading (M4a.mirrors_checkedPlain op)
  rw [if_neg before, if_neg before]
  by_cases isEnd : op = endNote
  · rw [if_pos isEnd, if_pos isEnd]
    exact CheckedDecoder.mirrors_plain _
  rw [if_neg isEnd, if_neg isEnd]
  by_cases isStart : op = startNote
  · rw [if_pos isStart, if_pos isStart]
    exact M4a.mirrors_checkedNote_none
  rw [if_neg isStart, if_neg isStart]
  -- the opcodes that are left are the notes of each duration
  have first : startNote.toNat = 207 := rfl
  have low : startNote.toNat ≤ op.toNat := by
    have : ¬ op.toNat < 206 := before
    have : op.toNat ≠ 206 := fun e => isEnd (UInt8.toNat_inj.mp e)
    omega
  have high := op.toNat_lt
  have place : (op - startNote).toNat = op.toNat - startNote.toNat :=
    UInt8.toNat_sub_of_le _ _ low
  obtain ⟨ticks, found, bound⟩ := @M4a.durations_le (op.toNat - startNote.toNat) (by omega)
  rw [place, found]
  refine CheckedDecoder.mirrors_after ?_ (M4a.mirrors_checkedNote_some bound)
  rw [less_eq low, ok_bind, entry_eq found]

/-- Running status needs no arithmetic. -/
theorem M4a.mirrors_checkedDecoder : M4a.checkedDecoder.Mirrors M4a.decoder s := by
  intro status place hstatus inside
  unfold M4a.checkedDecoder M4a.decoder
  cases hop : s.bytes[place]? with
  | none => exact .ok _
  | some op =>
    dsimp only
    split
    · have remembered : (M4a.Status.remember status op).Fits := by
        unfold M4a.Status.remember
        split
        · exact ⟨hstatus.lastKey_le, hstatus.octave_le⟩
        · exact hstatus
      exact M4a.mirrors_checkedPerform op _ _ remembered (Bytes.lt_size_of_getElem? hop)
    · split
      · exact M4a.mirrors_checkedPerform _ _ _ hstatus inside
      · exact .ok _

theorem Mlss.mirrors_checkedDecoder (small : s.bytes.size < 2 ^ 32) :
    Mlss.checkedDecoder.Mirrors Mlss.decoder s := by
  refine CheckedDecoder.mirrors_byOpcode fun op => ?_
  split
  · exact CheckedDecoder.mirrors_plain _
  · exact CheckedDecoder.mirrors_reading (Mlss.mirrors_checkedPlain small op)

theorem Sdat.mirrors_checkedDecoder : Sdat.checkedDecoder.Mirrors Sdat.decoder s := by
  refine CheckedDecoder.mirrors_byOpcode fun op => ?_
  split
  · refine CheckedDecoder.mirrors_updating (P := fun _ => True)
      ((CheckedReading.mirrors_plain _).bind Reading.ensures_sevenBit fun _ _ =>
        mirrors_varlen.bind Reading.ensures_varlen fun _ _ => mirrors_pure _)
      (Reading.ensures_sevenBit.bind fun _ _ => Reading.ensures_varlen.bind fun _ _ =>
        Reading.ensures_pure trivial) fun _ _ _ _ => .ok _
  · exact CheckedDecoder.mirrors_reading (Sdat.mirrors_checkedPlain op)

/-- The octave may be shifted below zero before it is clamped, and then the key is clamped, too. -/
theorem Dse.mirrors_checkedNote (velocity : Nat) :
    (Dse.checkedNote velocity).Mirrors (Dse.note velocity) s := by
  intro status place hstatus inside
  have hoctave := hstatus.octave_le
  unfold Dse.checkedNote Dse.note
  cases hpacked : Reading.unsigned s place with
  | error d => exact .ok _
  | ok found =>
    obtain ⟨-, hpacked⟩ := Reading.ensures_unsigned _ _ _ inside hpacked
    obtain ⟨packed, after⟩ := found
    dsimp only at hpacked ⊢
    -- below zero the numbers of the words are clamped to 0, and the plain ones are cut off there
    have octave : min (status.octave + ((packed / 16 % 4 : Nat) - 2) : Int).toNat highestOctave =
        min (status.octave + packed / 16 % 4 - 2) highestOctave := by omega
    have bound : min (status.octave + packed / 16 % 4 - 2) highestOctave ≤ 10 :=
      Nat.min_le_right _ _
    refine .of_eq ?_
    rw [signed_eq (by omega) (by omega), ok_bind, signed_eq (by omega) (by omega), ok_bind, octave,
      signed_eq (by omega) (by omega), ok_bind]
    rfl

/-- Lengthening a pause is the only thing that counts, so this is where `Gives` is needed. -/
theorem Dse.mirrors_checkedPerform (op : UInt8) :
    (Dse.checkedPerform op).Mirrors (Dse.perform op) s := by
  unfold Dse.checkedPerform
  by_cases isNote : op < 0x80
  · unfold Dse.perform
    rw [if_pos isNote, if_pos isNote]
    exact Dse.mirrors_checkedNote _
  rw [if_neg isNote]
  by_cases isPause : op < 0x90
  -- a short pause is looked up in a table, which has an entry for each of these opcodes
  · have low : UInt8.toNat 0x80 ≤ op.toNat := Nat.not_lt.mp isNote
    have high : op.toNat < UInt8.toNat 0x90 := isPause
    have inside : op.toNat - UInt8.toNat 0x80 < pauses.size :=
      Nat.lt_of_lt_of_le (Nat.sub_lt_sub_right low high) (by decide)
    have found := Array.getElem?_eq_getElem inside
    unfold Dse.perform
    rw [if_pos isPause, if_neg isNote, UInt8.toNat_sub_of_le _ _ low, found]
    refine CheckedDecoder.mirrors_after ?_ (CheckedDecoder.mirrors_plain _)
    change less op.toNat (UInt8.toNat 0x80) >>= _ = _
    rw [less_eq low, ok_bind, entry_eq found]
  rw [if_neg isPause]
  split
  · exact CheckedDecoder.mirrors_updating (CheckedReading.mirrors_plain _) Reading.ensures_unsigned
      fun status ticks _ _ => (Gives.count _ _).bind (.ok _)
  · refine CheckedDecoder.mirrors_updating (CheckedReading.mirrors_plain _) Reading.ensures_signed
      fun status shift hstatus hshift => .of_eq ?_
    -- an octave is shifted by a byte with a sign
    have := hstatus.octave_le
    rw [signed_eq (by omega) (by omega)]
    rfl
  · exact CheckedDecoder.mirrors_reading
      (mirrors_centred.bind Reading.ensures_centred fun _ _ => mirrors_pure _)
  · exact CheckedDecoder.mirrors_plain _

end EventStream

/-! ## All drivers

A decoder is chosen by the driver, and the length of a command is the distance of two places. -/

def SoundDriver.checkedDecoder : SoundDriver → CheckedDecoder
  | m4a => EventStream.M4a.checkedDecoder
  | mlss => EventStream.Mlss.checkedDecoder
  | dse => EventStream.Dse.checkedDecoder
  | sdat => EventStream.Sdat.checkedDecoder

namespace EventStream

variable {s : EventStream} {driver : SoundDriver} {cursor : Nat} {status : Status}

/-- A reader adds the width of a number to its place before it knows that the number is there. No
command takes it further than this. -/
def farthest : Nat := 8

def checkedDecode (driver : SoundDriver) (s : EventStream) (cursor : Nat) (status : Status) :
    Checked (Status × Except DecodeError Decoded) := do
  let _ ← word 64 (cursor + farthest)
  match ← driver.checkedDecoder status s cursor with
  | (status, .ok (command, after)) => return (status, .ok ⟨command, ← less after cursor⟩)
  | (status, .error d) => return (status, .error (d.at cursor))

/-- Only MLSS has to know that the stream is not too long. -/
theorem mirrors_checkedDecoder (small : s.bytes.size < 2 ^ 32) (driver : SoundDriver) :
    driver.checkedDecoder.Mirrors driver.decoder s := by
  cases driver with
  | m4a => exact M4a.mirrors_checkedDecoder
  | mlss => exact Mlss.mirrors_checkedDecoder small
  | dse => exact CheckedDecoder.mirrors_byOpcode Dse.mirrors_checkedPerform
  | sdat => exact Sdat.mirrors_checkedDecoder

/-- Decoding in words. The length of a command is the distance between two places, the first one
before the second. -/
theorem gives_checkedDecode (small : s.bytes.size < 2 ^ 32) (hstatus : status.Fits)
    (inside : cursor ≤ s.bytes.size) :
    Gives (s.checkedDecode driver cursor status) (s.decode driver cursor status) := by
  have hdecoder := mirrors_checkedDecoder small driver status cursor hstatus inside
  obtain ⟨-, hc⟩ := ensures_decoder driver status cursor hstatus inside
  unfold checkedDecode decode decodeWith farthest
  rw [word_eq (by omega), ok_bind]
  refine hdecoder.bind ?_
  cases he : driver.decoder status s cursor with
  | mk next result =>
    rw [he] at hc
    cases result with
    | error d => exact .ok _
    | ok found =>
      obtain ⟨⟨forth, -⟩, -⟩ := hc found.1 found.2 rfl
      dsimp only
      rw [less_eq forth]
      exact .ok _

end EventStream
end Chiptune
