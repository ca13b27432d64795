import Chiptune.Proofs.Cartridge.SongTable
import Chiptune.Wav
import Mathlib.Tactic.MkIffOfInductiveProp

/-!
# Reading WAV files

A reader of WAV files that knows nothing of the writer: it takes each field of the header from its
place, accepts the file only if the fields describe linear stereo sound of 16 bits and agree with
one another and with the length of the file, and then takes one level after the other, left before
right (`Wav.decode?`).

What it reads is what was written, and it reads nothing else (`Wav.decode?_eq_some_iff`): both sides
come down to the same row of bytes, a header and the bytes of the frames. So a file tells its rate
and its frames (`Wav.file_tells_sound`).
-/

namespace Chiptune

/-! ## Rows of bytes

A file is a string of bytes, and what it holds is said with lists. A row that stands in a string at
its start and has its size is all of it. -/

namespace Bytes

variable {b : ByteArray} {i width : Nat} {l : List UInt8}

/-- The `width` bytes at `i`. -/
def row? (b : ByteArray) : (width i : Nat) → Option (List UInt8)
  | 0, _ => some []
  | width + 1, i => do
    let first ← b[i]?
    let rest ← row? b width (i + 1)
    return first :: rest

/-- A row of so many bytes is read exactly where it stands. -/
theorem row?_eq_some_iff : row? b width i = some l ↔ l.length = width ∧ Holds b i l := by
  induction width generalizing i l with
  | zero =>
    rw [row?, Option.some.injEq, List.length_eq_zero_iff]
    constructor
    · rintro rfl
      exact ⟨rfl, holds_nil⟩
    · rintro ⟨rfl, -⟩
      rfl
  | succ width ih =>
    simp only [row?, Option.bind_eq_bind, Option.bind_eq_some_iff, ih]
    constructor
    · rintro ⟨first, found, rest, ⟨rfl, held⟩, same⟩
      cases same
      exact ⟨rfl, holds_cons.mpr ⟨found, held⟩⟩
    · rintro ⟨length, held⟩
      obtain ⟨first, rest, rfl⟩ := List.exists_cons_of_length_eq_add_one length
      obtain ⟨found, held⟩ := holds_cons.mp held
      exact ⟨first, found, rest, ⟨Nat.succ.inj length, held⟩, rfl⟩

/-- A string that holds a row of its own size is that row. -/
theorem eq_toByteArray_iff : b = l.toByteArray ↔ b.size = l.length ∧ Holds b 0 l := by
  have places (k : Nat) : b[0 + k]? = b.data.toList[k]? := by
    rw [Nat.zero_add, Array.getElem?_toList]
    rfl
  constructor
  · rintro rfl
    refine ⟨?_, fun k _ => by rw [places, List.toList_data_toByteArray]⟩
    rw [← ByteArray.size_data, ← Array.length_toList, List.toList_data_toByteArray]
  · rintro ⟨size, held⟩
    rw [← ByteArray.size_data, ← Array.length_toList] at size
    apply ByteArray.ext
    apply Array.toList_inj.mp
    rw [List.toList_data_toByteArray]
    refine List.ext_getElem? fun k => ?_
    rcases Nat.lt_or_ge k l.length with inside | beyond
    · rw [← places, held k inside]
    · rw [List.getElem?_eq_none beyond, List.getElem?_eq_none (size ▸ beyond)]

theorem size_toByteArray (l : List UInt8) : l.toByteArray.size = l.length :=
  (eq_toByteArray_iff.mp rfl).1

theorem holds_toByteArray (l : List UInt8) : Holds l.toByteArray 0 l :=
  (eq_toByteArray_iff.mp rfl).2

end Bytes

open Bytes

/-- The bytes of a frame. -/
def Frame.bytes (f : Frame) : List UInt8 :=
  littleBytes 2 f.left.toUInt16.toNat ++ littleBytes 2 f.right.toUInt16.toNat

@[simp] theorem Frame.length_bytes (f : Frame) : f.bytes.length = 4 := by simp [bytes]

/-- Each frame takes four bytes, two for each side. -/
theorem Frame.length_flatMap_bytes (frames : List Frame) :
    (frames.flatMap bytes).length = 4 * frames.length := by
  induction frames with
  | nil => rfl
  | cons f frames ih =>
    rw [List.flatMap_cons, List.length_append, ih, length_bytes, List.length_cons]
    omega

namespace Wav

variable {file : ByteArray} {frames : Array Frame} {sampleRate i count : Nat}

/-! ## What is written

The writer pushes byte by byte. What comes out is a list: the header, and four bytes for each frame.
-/

/-- A level is written as its word, the low byte first. -/
theorem pushLevel_eq (file : ByteArray) (level : Int16) :
    (pushLevel file level).data.toList =
      file.data.toList ++ littleBytes 2 level.toUInt16.toNat := by
  have high : (level.toUInt16 >>> 8).toUInt8 = UInt8.ofNat (level.toUInt16.toNat / 256) := by
    apply UInt8.toNat_inj.mp
    simp [Nat.shiftRight_eq_div_pow]
  simp [pushLevel, littleBytes, high]

theorem pushFrame_eq (file : ByteArray) (f : Frame) :
    (pushFrame file f).data.toList = file.data.toList ++ f.bytes := by
  rw [pushFrame, pushLevel_eq, pushLevel_eq, List.append_assoc, Frame.bytes]

/-- The frames stand one behind the other. -/
theorem foldl_pushFrame_eq (frames : List Frame) (file : ByteArray) :
    (frames.foldl pushFrame file).data.toList =
      file.data.toList ++ frames.flatMap Frame.bytes := by
  induction frames generalizing file with
  | nil => simp
  | cons f frames ih =>
    rw [List.foldl_cons, ih, pushFrame_eq, List.append_assoc, List.flatMap_cons]

/-- The file of some frames is a header that fits and the bytes of the frames behind it. -/
theorem encode?_eq_some_iff :
    encode? frames sampleRate = some file ↔
      Fits frames sampleRate ∧
        file = (header frames sampleRate ++ frames.toList.flatMap Frame.bytes).toByteArray := by
  have written : frames.foldl pushFrame (header frames sampleRate).toByteArray =
      (header frames sampleRate ++ frames.toList.flatMap Frame.bytes).toByteArray := by
    apply ByteArray.ext
    apply Array.toList_inj.mp
    rw [← Array.foldl_toList, foldl_pushFrame_eq, List.toList_data_toByteArray,
      List.toList_data_toByteArray]
  unfold encode?
  rw [written]
  split
  · next fits => simp [fits, eq_comm]
  · next large => simp [large]

/-- The fields of the header fill its 44 bytes. -/
theorem length_header (frames : Array Frame) (sampleRate : Nat) :
    (header frames sampleRate).length = headerSize := by
  have marks : (tag "RIFF").length = 4 ∧ (tag "WAVE").length = 4 ∧ (tag "fmt ").length = 4 ∧
      (tag "data").length = 4 := by decide
  simp [header, marks, headerSize]

/-- A file is as long as its header and its frames. -/
theorem size_encode? (written : encode? frames sampleRate = some file) :
    file.size = 44 + 4 * frames.size := by
  obtain ⟨-, same⟩ := encode?_eq_some_iff.mp written
  rw [same, size_toByteArray, List.length_append, length_header, Frame.length_flatMap_bytes,
    Array.length_toList]
  rfl

/-! ## What is read

The reader takes each field from its own place and accepts a file only if all of them agree with
each other and with the size of the file. It is part of the statement and not of a player. -/

/-- The numbers in the header of a file of linear levels. -/
@[ext]
structure Fields where
  riffSize : Nat
  /-- The size of the part that describes the levels. -/
  formatSize : Nat
  /-- How levels are told; 1 stands for plain numbers. -/
  coding : Nat
  channels : Nat
  sampleRate : Nat
  byteRate : Nat
  frameSize : Nat
  bitsPerLevel : Nat
  dataSize : Nat

/-- The fields of a header, each from its place, if the marks between them are there. -/
def fields? (file : ByteArray) : Option Fields := do
  let riff ← row? file 4 0
  let riffSize ← little? file 4 4
  let kind ← row? file 8 8
  let formatSize ← little? file 4 16
  let coding ← little? file 2 20
  let channels ← little? file 2 22
  let sampleRate ← little? file 4 24
  let byteRate ← little? file 4 28
  let frameSize ← little? file 2 32
  let bitsPerLevel ← little? file 2 34
  let data ← row? file 4 36
  let dataSize ← little? file 4 40
  if riff = tag "RIFF" ∧ kind = tag "WAVEfmt " ∧ data = tag "data" then
    return ⟨riffSize, formatSize, coding, channels, sampleRate, byteRate, frameSize, bitsPerLevel,
      dataSize⟩
  else none

/-- The fields describe stereo sound of 16 bits that fills a file of `size` bytes. -/
@[mk_iff]
structure Fields.Describe (h : Fields) (size : Nat) : Prop where
  riffSize : h.riffSize + 8 = size
  formatSize : h.formatSize = 16
  coding : h.coding = 1
  channels : h.channels = 2
  byteRate : h.byteRate = h.sampleRate * h.frameSize
  frameSize : h.frameSize = 4
  bitsPerLevel : h.bitsPerLevel = 16
  dataSize : h.dataSize + 44 = size
  whole : h.frameSize ∣ h.dataSize

instance (h : Fields) (size : Nat) : Decidable (h.Describe size) :=
  decidable_of_iff _ (h.describe_iff size).symm

/-- The level whose two bytes stand at `i`. -/
def level? (file : ByteArray) (i : Nat) : Option Int16 := do
  return (UInt16.ofNat (← little? file 2 i)).toInt16

/-- The frames from `i` on, left before right. -/
def frames? (file : ByteArray) : (count i : Nat) → Option (List Frame)
  | 0, _ => some []
  | count + 1, i => do
    let left ← level? file i
    let right ← level? file (i + 2)
    let rest ← frames? file count (i + 4)
    return ⟨left, right⟩ :: rest

/-- The sample rate and the frames of a file. -/
def decode? (file : ByteArray) : Option (Nat × List Frame) := do
  let h ← fields? file
  if h.Describe file.size then
    return (h.sampleRate, ← frames? file (h.dataSize / h.frameSize) 44)
  else none

/-- A level is read exactly where its two bytes stand. -/
theorem level?_eq_some_iff {level : Int16} :
    level? file i = some level ↔ Holds file i (littleBytes 2 level.toUInt16.toNat) := by
  have width : span 2 = 2 ^ 16 := by decide
  simp only [level?, Option.bind_eq_bind, Option.bind_eq_some_iff, little?_eq_some_iff]
  constructor
  · rintro ⟨n, ⟨fits, held⟩, same⟩
    cases same
    rw [UInt16.toUInt16_toInt16, UInt16.toNat_ofNat_of_lt' (Nat.lt_of_lt_of_eq fits width)]
    exact held
  · intro held
    refine ⟨_, ⟨width ▸ level.toUInt16.toNat_lt, held⟩, ?_⟩
    rw [UInt16.ofNat_toNat, Int16.toInt16_toUInt16]
    rfl

/-- Frames are read exactly where their bytes stand. -/
theorem frames?_eq_some_iff {l : List Frame} :
    frames? file count i = some l ↔ l.length = count ∧ Holds file i (l.flatMap Frame.bytes) := by
  induction count generalizing i l with
  | zero =>
    rw [frames?, Option.some.injEq, List.length_eq_zero_iff]
    constructor
    · rintro rfl
      exact ⟨rfl, holds_nil⟩
    · rintro ⟨rfl, -⟩
      rfl
  | succ count ih =>
    -- the first frame has four bytes, and the others stand behind them
    have row (f : Frame) (rest : List Frame) :
        Holds file i ((f :: rest).flatMap Frame.bytes) ↔
          Holds file i (littleBytes 2 f.left.toUInt16.toNat) ∧
            Holds file (i + 2) (littleBytes 2 f.right.toUInt16.toNat) ∧
            Holds file (i + 4) (rest.flatMap Frame.bytes) := by
      rw [List.flatMap_cons, holds_append, Frame.length_bytes, Frame.bytes, holds_append,
        length_littleBytes, and_assoc]
    simp only [frames?, Option.bind_eq_bind, Option.bind_eq_some_iff, level?_eq_some_iff, ih]
    constructor
    · rintro ⟨left, hleft, right, hright, rest, ⟨rfl, others⟩, same⟩
      cases same
      exact ⟨rfl, (row ⟨left, right⟩ rest).mpr ⟨hleft, hright, others⟩⟩
    · rintro ⟨length, held⟩
      obtain ⟨f, rest, rfl⟩ := List.exists_cons_of_length_eq_add_one length
      obtain ⟨hleft, hright, others⟩ := (row f rest).mp held
      exact ⟨f.left, hleft, f.right, hright, rest, ⟨Nat.succ.inj length, others⟩, rfl⟩

/-! ## What is written is read

Since the reader is strict, what it accepts is exactly what the writer writes. The round trip in
both directions comes from this one equivalence. -/

/-- The bytes of a header with these fields. -/
def Fields.bytes (h : Fields) : List UInt8 :=
  tag "RIFF" ++ (littleBytes 4 h.riffSize ++ (tag "WAVEfmt " ++ (littleBytes 4 h.formatSize ++
    (littleBytes 2 h.coding ++ (littleBytes 2 h.channels ++ (littleBytes 4 h.sampleRate ++
      (littleBytes 4 h.byteRate ++ (littleBytes 2 h.frameSize ++ (littleBytes 2 h.bitsPerLevel ++
        (tag "data" ++ littleBytes 4 h.dataSize))))))))))

/-- The numbers fit their fields. -/
@[mk_iff]
structure Fields.Fit (h : Fields) : Prop where
  riffSize : h.riffSize < span 4
  formatSize : h.formatSize < span 4
  coding : h.coding < span 2
  channels : h.channels < span 2
  sampleRate : h.sampleRate < span 4
  byteRate : h.byteRate < span 4
  frameSize : h.frameSize < span 2
  bitsPerLevel : h.bitsPerLevel < span 2
  dataSize : h.dataSize < span 4

/-- The marks of a header take so many bytes. -/
theorem length_marks : (tag "RIFF").length = 4 ∧ (tag "WAVEfmt ").length = 8 ∧
    (tag "data").length = 4 := by decide

/-- The header is read exactly where the bytes of its fields stand, each field within its width. -/
theorem fields?_eq_some_iff {h : Fields} :
    fields? file = some h ↔ h.Fit ∧ Holds file 0 h.bytes := by
  obtain ⟨riff, kind, data⟩ := length_marks
  -- from the outside in, so that the rest of the header is looked at only once for each field
  dsimp only [fields?, Option.bind_eq_bind]
  simp only [↓Option.bind_eq_some_iff, row?_eq_some_iff, little?_eq_some_iff, Fields.bytes,
    holds_append, riff, kind, data, length_littleBytes, Nat.reduceAdd, Fields.fit_iff]
  constructor
  · rintro ⟨_, ⟨-, h₁⟩, _, ⟨f₂, h₂⟩, _, ⟨-, h₃⟩, _, ⟨f₄, h₄⟩, _, ⟨f₅, h₅⟩, _, ⟨f₆, h₆⟩, _, ⟨f₇, h₇⟩,
      _, ⟨f₈, h₈⟩, _, ⟨f₉, h₉⟩, _, ⟨f₁₀, h₁₀⟩, _, ⟨-, h₁₁⟩, _, ⟨f₁₂, h₁₂⟩, same⟩
    split at same
    · next marks =>
      obtain ⟨rfl, rfl, rfl⟩ := marks
      cases same
      exact ⟨⟨f₂, f₄, f₅, f₆, f₇, f₈, f₉, f₁₀, f₁₂⟩, h₁, h₂, h₃, h₄, h₅, h₆, h₇, h₈, h₉, h₁₀, h₁₁,
        h₁₂⟩
    · cases same
  · rintro ⟨⟨f₂, f₄, f₅, f₆, f₇, f₈, f₉, f₁₀, f₁₂⟩, h₁, h₂, h₃, h₄, h₅, h₆, h₇, h₈, h₉, h₁₀, h₁₁,
      h₁₂⟩
    exact ⟨_, ⟨riff, h₁⟩, _, ⟨f₂, h₂⟩, _, ⟨kind, h₃⟩, _, ⟨f₄, h₄⟩, _, ⟨f₅, h₅⟩, _, ⟨f₆, h₆⟩, _,
      ⟨f₇, h₇⟩, _, ⟨f₈, h₈⟩, _, ⟨f₉, h₉⟩, _, ⟨f₁₀, h₁₀⟩, _, ⟨data, h₁₁⟩, _, ⟨f₁₂, h₁₂⟩,
      if_pos ⟨rfl, rfl, rfl⟩⟩

/-- The fields of the header of some frames. -/
def fieldsOf (frames : Array Frame) (sampleRate : Nat) : Fields :=
  ⟨riffSize frames, 16, 1, channels, sampleRate, byteRate sampleRate, frameSize, bitsPerLevel,
    dataSize frames⟩

/-- What is written is the header of these fields. -/
theorem header_eq (frames : Array Frame) (sampleRate : Nat) :
    header frames sampleRate = (fieldsOf frames sampleRate).bytes := by
  have kind : tag "WAVEfmt " = tag "WAVE" ++ tag "fmt " := by decide
  simp only [header, Fields.bytes, fieldsOf, kind, List.append_assoc]

/-- The fields fit their widths exactly if the file can be written. -/
theorem fit_fieldsOf_iff : (fieldsOf frames sampleRate).Fit ↔ Fits frames sampleRate := by
  have widths : span 4 = 2 ^ 32 ∧ span 2 = 2 ^ 16 := by decide
  simp only [Fields.fit_iff, fieldsOf, Fits, riffSize, byteRate, dataSize, frameSize, channels,
    bitsPerLevel, headerSize, widths]
  omega

/-- The fields that are written say of the file what is so. -/
theorem describe_fieldsOf (frames : Array Frame) (sampleRate : Nat) :
    (fieldsOf frames sampleRate).Describe (44 + 4 * frames.size) where
  riffSize := by
    simp only [fieldsOf, Wav.riffSize, Wav.dataSize, Wav.headerSize, Wav.frameSize, Wav.channels,
      Wav.bitsPerLevel]
    omega
  formatSize := rfl
  coding := rfl
  channels := rfl
  byteRate := rfl
  frameSize := rfl
  bitsPerLevel := rfl
  dataSize := by
    simp only [fieldsOf, Wav.dataSize, Wav.frameSize, Wav.channels, Wav.bitsPerLevel]
    omega
  whole := Nat.dvd_mul_left _ _

namespace Fields.Describe

variable {h : Fields} {size : Nat}

/-- A file has as many frames as its size leaves room for. -/
theorem size_eq (describe : h.Describe size) : size = 44 + 4 * (h.dataSize / h.frameSize) := by
  obtain ⟨k, whole⟩ := describe.whole
  have frameSize := describe.frameSize
  have dataSize := describe.dataSize
  rw [frameSize] at whole ⊢
  omega

/-- For so many frames there is but one header with their rate. -/
theorem eq_fieldsOf (describe : h.Describe (44 + 4 * frames.size)) :
    h = fieldsOf frames h.sampleRate := by
  have only := describe_fieldsOf frames h.sampleRate
  ext
  · exact Nat.add_right_cancel (describe.riffSize.trans only.riffSize.symm)
  · exact describe.formatSize
  · exact describe.coding
  · exact describe.channels
  · rfl
  · rw [describe.byteRate, describe.frameSize]
    rfl
  · exact describe.frameSize
  · exact describe.bitsPerLevel
  · exact Nat.add_right_cancel (describe.dataSize.trans only.dataSize.symm)

end Fields.Describe

/-- A file is read as some sound exactly if it is the file of that sound. -/
theorem decode?_eq_some_iff :
    decode? file = some (sampleRate, frames.toList) ↔ encode? frames sampleRate = some file := by
  have size : (header frames sampleRate ++ frames.toList.flatMap Frame.bytes).length =
      44 + 4 * frames.size := by
    rw [List.length_append, length_header, Frame.length_flatMap_bytes, Array.length_toList]
    rfl
  -- a file is its header and its frames, and both sides of the statement say so
  have bytes : Holds file 0 (header frames sampleRate ++ frames.toList.flatMap Frame.bytes) ↔
      Holds file 0 (fieldsOf frames sampleRate).bytes ∧
        Holds file 44 (frames.toList.flatMap Frame.bytes) := by
    rw [holds_append, length_header, header_eq]
    rfl
  rw [encode?_eq_some_iff, eq_toByteArray_iff, size, bytes, ← fit_fieldsOf_iff]
  simp only [decode?, Option.bind_eq_bind, Option.bind_eq_some_iff, fields?_eq_some_iff]
  constructor
  · rintro ⟨h, ⟨fit, held⟩, read⟩
    split at read
    · next describe =>
      obtain ⟨found, read, same⟩ := Option.bind_eq_some_iff.mp read
      cases same
      obtain ⟨counted, rest⟩ := frames?_eq_some_iff.mp read
      -- the size of the data tells how many frames there are
      have size := describe.size_eq
      rw [← counted, Array.length_toList] at size
      rw [size] at describe
      rw [← describe.eq_fieldsOf]
      exact ⟨fit, size, held, rest⟩
    · cases read
  · rintro ⟨fit, size, held, rest⟩
    have describe := describe_fieldsOf frames sampleRate
    have counted : frames.size =
        (fieldsOf frames sampleRate).dataSize / (fieldsOf frames sampleRate).frameSize := by
      have := describe.size_eq
      omega
    have read := frames?_eq_some_iff.mpr ⟨rfl, rest⟩
    rw [Array.length_toList, counted] at read
    refine ⟨_, ⟨fit, held⟩, ?_⟩
    rw [size, if_pos describe, read]
    rfl

/-- Each number of a header stands at its own place. -/
theorem little?_of_fields? {h : Fields} (found : fields? file = some h) :
    little? file 4 4 = some h.riffSize ∧ little? file 4 24 = some h.sampleRate ∧
      little? file 4 28 = some h.byteRate ∧ little? file 4 40 = some h.dataSize := by
  dsimp only [fields?, Option.bind_eq_bind] at found
  simp only [↓Option.bind_eq_some_iff] at found
  obtain ⟨_, -, riffSize, riff, _, -, _, -, _, -, _, -, sampleRate, rate, byteRate, second, _, -,
    _, -, _, -, dataSize, data, same⟩ := found
  split at same
  · cases same
    exact ⟨riff, rate, second, data⟩
  · cases same

/-- The header of a file that was written is read back. -/
theorem fields?_of_encode? (written : encode? frames sampleRate = some file) :
    fields? file = some (fieldsOf frames sampleRate) := by
  obtain ⟨fits, same⟩ := encode?_eq_some_iff.mp written
  rw [same, fields?_eq_some_iff, fit_fieldsOf_iff, ← header_eq]
  exact ⟨fits, (holds_append.mp (holds_toByteArray _)).1⟩

/-- The file of some sound has a header of 44 bytes and four bytes a frame, and tells its size and
the size of the frames. Who reads it finds the rate and the frames again, so no other sound has the
same file. -/
theorem file_tells_sound (frames : Array Frame) (sampleRate : Nat)
    (small : 36 + 4 * frames.size < 2 ^ 32) (slow : 4 * sampleRate < 2 ^ 32) :
    ∃ file, encode? frames sampleRate = some file ∧
      file.size = 44 + 4 * frames.size ∧
      little? file 4 4 = some (file.size - 8) ∧ little? file 4 40 = some (file.size - 44) ∧
      decode? file = some (sampleRate, frames.toList) ∧
      ∀ frames' sampleRate', encode? frames' sampleRate' = some file →
        frames' = frames ∧ sampleRate' = sampleRate := by
  have fits : Fits frames sampleRate := by
    have width : span 4 = 2 ^ 32 := by decide
    simp only [Fits, riffSize, dataSize, byteRate, frameSize, channels, bitsPerLevel, headerSize,
      width]
    omega
  obtain ⟨file, written⟩ : ∃ file, encode? frames sampleRate = some file :=
    ⟨_, encode?_eq_some_iff.mpr ⟨fits, rfl⟩⟩
  have size := size_encode? written
  have describe := describe_fieldsOf frames sampleRate
  obtain ⟨riff, -, -, data⟩ := little?_of_fields? (fields?_of_encode? written)
  refine ⟨file, written, size, ?_, ?_, decode?_eq_some_iff.mpr written, ?_⟩
  · rw [riff, size, ← describe.riffSize, Nat.add_sub_cancel]
  · rw [data, size, ← describe.dataSize, Nat.add_sub_cancel]
  -- two recordings with one file are both what is read from it
  · intro frames' sampleRate' other
    have same : some (sampleRate', frames'.toList) = some (sampleRate, frames.toList) :=
      (decode?_eq_some_iff.mpr other).symm.trans (decode?_eq_some_iff.mpr written)
    obtain ⟨rates, rows⟩ := Prod.mk.inj (Option.some.inj same)
    exact ⟨Array.toList_inj.mp rows, rates⟩

theorem file_tells_sound_twoFrames :
    let frames : Array Frame := #[⟨258, -2⟩, ⟨-32768, 32767⟩]
    36 + 4 * frames.size < 2 ^ 32 ∧ 4 * 22050 < 2 ^ 32 ∧
      ∃ file, encode? frames 22050 = some file ∧ file.size = 52 ∧
        little? file 4 4 = some 44 ∧ little? file 4 40 = some 8 ∧
        decode? file = some (22050, [⟨258, -2⟩, ⟨-32768, 32767⟩]) := by
  intro frames
  obtain ⟨file, written, size, riff, data, read, -⟩ :=
    file_tells_sound frames 22050 (by decide) (by decide)
  have size : file.size = 52 := size
  rw [size] at riff data
  exact ⟨by decide, by decide, file, written, size, riff, data, read⟩

end Wav
end Chiptune
