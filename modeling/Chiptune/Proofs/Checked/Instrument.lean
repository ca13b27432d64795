import Chiptune.Proofs.Cartridge.Reads
import Chiptune.Proofs.Cartridge.SongTable
import Chiptune.Proofs.Checked.Basic

/-!
# Instruments in words

Every place that a loader comes to is the sum of an offset that the bus maps and of a distance that
a number of the image names. The bus maps 32 MiB and no number has more than four bytes, so no sum
gets near the end of a word of 64 bits, whatever the image holds. The levels of a wave, the place of
a recording and the rates of a tone channel are calculated in much smaller words, and stay in them
because they are made of a few bits each.

What an entry of a voice group can do is to put one more sample on the shelf, and there is only a
limited number of names for samples. So each step here asks for the room that it may take
(`Image.checkedInstrument_eq`), and is told to take no more (`Image.size_instrument_le`).
-/

namespace Chiptune

open Checked

/-! ## Calculations

Each loader is written once more with its places and distances added up in words. A recording is
read by its header first, because the length of its body is one of the numbers that have to be
added. -/

/-- The bytes of a range whose end has to be calculated first. -/
def Bytes.checkedSlice? (b : ByteArray) (i len : Nat) : Checked (Option ByteArray) := do
  let stop ← word 64 (i + len)
  return if stop ≤ b.size then some (b.extract i stop) else none

namespace SampleShelf

/-- The most samples that a bank can name. -/
def greatestSize : Nat := 2 ^ 32 - 2

def checkedAdd (shelf : SampleShelf) (address : Nat) (s : Sample) : Checked SampleShelf :=
  if shelf.samples.size < greatestSize then return shelf.add address s else .error .overflow

def checkedFetch (address : Nat) (read : Nat → Checked (Option Sample)) (shelf : SampleShelf) :
    Checked (Option Nat × SampleShelf) :=
  match shelf.place? address with
  | some place => return (some place, shelf)
  | none => do
    match ← read address with
    | some s => return (some shelf.samples.size, ← shelf.checkedAdd address s)
    | none => return (none, shelf)

end SampleShelf

namespace Image

def checkedVoiceEntryAt? (image : Image) (group index : Nat) : Checked (Option VoiceEntry) := do
  let distance ← word 64 (index * voiceEntrySize)
  let i ← word 64 (group + distance)
  return image.voiceEntryAt? i 0

/-- Flags, rate, loop start and length of the recording at an offset. -/
def recordingHeader? (image : Image) (i : Nat) : Option (Nat × Nat × Nat × Nat) := do
  let flags ← Bytes.little? image.bytes 4 i
  let rate ← Bytes.little? image.bytes 4 (i + 4)
  let loopStart ← Bytes.little? image.bytes 4 (i + 8)
  let length ← Bytes.little? image.bytes 4 (i + 12)
  return (flags, rate, loopStart, length)

def checkedRecording? (image : Image) (address : Nat) : Checked (Option Sample) :=
  match image.offset? address with
  | none => return none
  | some i =>
    match image.recordingHeader? i with
    | none => return none
    | some (flags, rate, loopStart, length) => do
      match ← Bytes.checkedSlice? image.bytes (← word 64 (i + 16)) length with
      | none => return none
      | some body => do
        let sample := Sample.ofData "pcm" (.pcm8 body) (← quotient rate 1024)
        return some (if flags &&& loopedFlag ≠ 0 then sample.withLoop loopStart else sample)

def checkedWaveLevel (nibble : Nat) : Checked UInt8 := do
  return UInt8.ofInt (← signed 8 ((← signed 8 (nibble - 8)) * 16))

def checkedWave? (image : Image) (address : Nat) : Checked (Option Sample) :=
  match image.offset? address with
  | none => return none
  | some i => do
    match ← Bytes.checkedSlice? image.bytes i waveSize with
    | none => return none
    | some bytes => do
      let levels ← bytes.data.toList.mapM fun b => do
        return [← checkedWaveLevel (b.toNat / 16), ← checkedWaveLevel (b.toNat % 16)]
      return some ((Sample.ofData "wave" (.pcm8 ⟨levels.flatten.toArray⟩) 0).withLoop 0)

def checkedPlaceOf (panSweep : UInt8) : Checked (Option Int) :=
  if 128 ≤ panSweep.toNat then do
    return some (← signed 8 (← signed 16 ((panSweep.toNat % 128 : Nat) - 64)))
  else return none

def checkedToneFall (rate : UInt8) : Checked UInt8 :=
  let frames := rate.toNat % 8
  if frames = 0 then return 0
  else do return UInt8.ofNat (min (256 - (← quotient 32 frames)) 255)

def checkedToneAttack (rate : UInt8) : Checked UInt8 :=
  let frames := rate.toNat % 8
  if frames = 0 then return 255
  else do return UInt8.ofNat (← quotient 17 frames)

def checkedToneAdsr (a : Adsr) : Checked Adsr := do
  let attack ← checkedToneAttack a.attack
  let decay ← checkedToneFall a.decay
  let sustain ← word 8 (a.sustain.toNat % 16 * 17)
  let release ← checkedToneFall a.release
  return { attack, decay, sustain := UInt8.ofNat sustain, release }

def checkedToneInstrument (name : String) (source : SoundSource) (channel : PsgChannel)
    (adsr : Adsr) : Checked Instrument := do
  let adsr ← checkedToneAdsr adsr
  return { Instrument.named name source with psgChannel := some channel, adsr }

def checkedRecordedInstrument (e : VoiceEntry) (sample : Nat) : Checked Instrument := do
  let pan ← checkedPlaceOf e.panSweep
  let i := { Instrument.named "direct" (.pcm sample) with adsr := e.adsr, pan }
  return if e.kind &&& fixedPitchFlag ≠ 0 then i.fixedAt i.rootKey else i

def checkedInstrument (image : Image) (e : VoiceEntry) (shelf : SampleShelf) :
    Checked (Option Instrument × SampleShelf) :=
  if e.kind &&& (keySplitKind ||| drumkitKind) ≠ 0 then return (none, shelf)
  else
    let duty := Duty.ofBits e.data
    match e.kind.toNat % 8 with
    | 0 => do
      match ← shelf.checkedFetch e.data image.checkedRecording? with
      | (some place, shelf) => return (some (← checkedRecordedInstrument e place), shelf)
      | (none, shelf) => return (none, shelf)
    | 1 => do
      return (some (← checkedToneInstrument "square1" (.square duty) .square1 e.adsr), shelf)
    | 2 => do
      return (some (← checkedToneInstrument "square2" (.square duty) .square2 e.adsr), shelf)
    | 3 => do
      match ← shelf.checkedFetch e.data image.checkedWave? with
      | (some place, shelf) =>
        return (some (← checkedToneInstrument "wave" (.wave place) .wave e.adsr), shelf)
      | (none, shelf) => return (none, shelf)
    | 4 => do
      let mode := if e.data % 2 = 1 then NoiseMode.short else NoiseMode.long
      return (some (← checkedToneInstrument "noise" (.noise mode) .noise e.adsr), shelf)
    | _ => return (none, shelf)

def checkedGroupInstrument (image : Image) (group index : Nat) (shelf : SampleShelf) :
    Checked (Option (Nat × Instrument) × SampleShelf) := do
  match ← image.checkedVoiceEntryAt? group index with
  | some e => do
    let (i, shelf) ← image.checkedInstrument e shelf
    return (i.map (e.baseKey, ·), shelf)
  | none => return (none, shelf)

end Image

/-! ## Distances

Where an entry or a slice begins and ends. Nothing is assumed of the image: a sum that leads behind
its end still fits its word. -/

/-- The end of a slice is calculated before it is known that the slice is there. -/
theorem Bytes.checkedSlice?_eq {i len : Nat} (b : ByteArray) (small : i + len < 2 ^ 64) :
    checkedSlice? b i len = .ok (slice? b i len) := by
  unfold checkedSlice? slice?
  rw [word_eq small]
  rfl

namespace Image

variable {image : Image} {group index address i : Nat}

/-- The bus maps no more than 32 MiB. -/
theorem offset?_lt (found : image.offset? address = some i) : i < 2 ^ 25 :=
  (offset?_eq_some_iff.mp found).2.1

/-- An entry stands twelve bytes behind the one before, not far beyond the image. -/
theorem checkedVoiceEntryAt?_eq (near : group < 2 ^ 25) (low : index < 2 ^ 8) :
    image.checkedVoiceEntryAt? group index = .ok (image.voiceEntryAt? group index) := by
  have distance : index * voiceEntrySize < 2 ^ 64 := by unfold voiceEntrySize; omega
  have place : group + index * voiceEntrySize < 2 ^ 64 := by unfold voiceEntrySize; omega
  rw [checkedVoiceEntryAt?, word_eq distance, ok_bind, word_eq place]
  simp [voiceEntryAt?]

/-! ## Samples

A recording takes its length from the image, and a wave has a fixed one. Both come out as they do
without words. -/

/-- A recording is read by its header, and then its body. -/
theorem recording?_eq (image : Image) (address : Nat) :
    image.recording? address =
      (image.offset? address).bind fun i =>
        (image.recordingHeader? i).bind fun (flags, rate, loopStart, length) =>
          (Bytes.slice? image.bytes (i + 16) length).map fun body =>
            let sample := Sample.ofData "pcm" (.pcm8 body) (rate / 1024)
            if flags &&& loopedFlag ≠ 0 then sample.withLoop loopStart else sample := by
  simp [recording?, recordingHeader?, Option.map_eq_bind, Option.bind_assoc]

/-- The length of a body has 32 bits, so the sum with its place fits 64. -/
theorem checkedRecording?_eq (image : Image) (address : Nat) :
    image.checkedRecording? address = .ok (image.recording? address) := by
  rw [recording?_eq, checkedRecording?]
  cases found : image.offset? address with
  | none => rfl
  | some i =>
    have near := offset?_lt found
    dsimp only [Option.bind_some]
    cases header : image.recordingHeader? i with
    | none => rfl
    | some fields =>
      obtain ⟨flags, rate, loopStart, length⟩ := fields
      -- the length is a field of four bytes
      have short : length < 2 ^ 32 := by
        simp only [recordingHeader?, Option.bind_eq_bind, Option.bind_eq_some_iff] at header
        obtain ⟨_, -, _, -, _, -, length', read, same⟩ := header
        cases same
        exact (Bytes.little?_eq_some_iff.mp read).1
      dsimp only [Option.bind_some]
      rw [word_eq (by omega), ok_bind, Bytes.checkedSlice?_eq _ (by omega), ok_bind]
      cases Bytes.slice? image.bytes (i + 16) length <;> rfl

/-- A nibble makes a level of 8 bits with a sign. -/
theorem checkedWaveLevel_eq {nibble : Nat} (small : nibble < 16) :
    checkedWaveLevel nibble = .ok (waveLevel nibble) := by
  unfold checkedWaveLevel
  rw [signed_eq (by omega) (by omega), ok_bind, signed_eq (by omega) (by omega)]
  rfl

/-- A wave is 16 bytes of two levels each. -/
theorem checkedWave?_eq (image : Image) (address : Nat) :
    image.checkedWave? address = .ok (image.wave? address) := by
  unfold checkedWave? wave?
  cases found : image.offset? address with
  | none => rfl
  | some i =>
    have near := offset?_lt found
    have inside : i + waveSize < 2 ^ 64 := by unfold waveSize; omega
    simp only [Option.bind_eq_bind, Option.bind_some, Bytes.checkedSlice?_eq _ inside, ok_bind]
    cases Bytes.slice? image.bytes i waveSize with
    | none => rfl
    | some bytes =>
      -- both nibbles of a byte are levels
      have levels : ∀ b ∈ bytes.data.toList,
          (do return [← checkedWaveLevel (b.toNat / 16), ← checkedWaveLevel (b.toNat % 16)]) =
            .ok [waveLevel (b.toNat / 16), waveLevel (b.toNat % 16)] := by
        intro b _
        have bound := b.toNat_lt
        rw [checkedWaveLevel_eq (by omega), checkedWaveLevel_eq (by omega)]
        rfl
      dsimp only
      rw [mapM_eq levels, ok_bind]
      -- whether the levels are listed or pushed into an array comes to the same
      have same : ((bytes.data.toList.map fun b =>
            [waveLevel (b.toNat / 16), waveLevel (b.toNat % 16)]).flatten).toArray =
          bytes.data.flatMap fun b => #[waveLevel (b.toNat / 16), waveLevel (b.toNat % 16)] := by
        apply Array.toList_inj.mp
        rw [Array.toList_flatMap, List.flatMap_def]
      rw [same]
      rfl

/-- Seven bits tell the place, counted from the far left. -/
theorem checkedPlaceOf_eq (panSweep : UInt8) :
    checkedPlaceOf panSweep = .ok (placeOf panSweep) := by
  have bound := panSweep.toNat_lt
  unfold checkedPlaceOf placeOf
  split
  · have same : ((panSweep.toNat % 128 : Nat) : Int) - 64 = panSweep.toNat - 128 - 64 := by omega
    rw [signed_eq (by omega) (by omega), ok_bind, signed_eq (by omega) (by omega), ok_bind, same]
    rfl
  · rfl

/-! ## Instruments

A shelf holds at most one sample for each entry that was read. A bank has words of 32 bits for the
places of its samples, and as long as it has read fewer entries, the next sample has a place. -/

/-- Where a tone falls at once, nothing is divided. -/
theorem checkedToneFall_eq (rate : UInt8) : checkedToneFall rate = .ok (toneFall rate) := by
  unfold checkedToneFall toneFall
  dsimp only
  split
  · rfl
  · next falls =>
    rw [quotient_eq falls]
    rfl

/-- The four numbers of a tone are each brought to the range of an envelope. -/
theorem checkedToneAdsr_eq (a : Adsr) : checkedToneAdsr a = .ok (toneAdsr a) := by
  have attack : checkedToneAttack a.attack = .ok (toneAdsr a).attack := by
    unfold checkedToneAttack toneAdsr
    dsimp only
    split
    · rfl
    · next rises =>
      rw [quotient_eq rises]
      rfl
  unfold checkedToneAdsr
  rw [attack, ok_bind, checkedToneFall_eq, ok_bind, word_eq (by omega), ok_bind,
    checkedToneFall_eq]
  rfl

theorem checkedToneInstrument_eq (name : String) (source : SoundSource) (channel : PsgChannel)
    (adsr : Adsr) :
    checkedToneInstrument name source channel adsr =
      .ok (toneInstrument name source channel adsr) := by
  rw [checkedToneInstrument, checkedToneAdsr_eq]
  rfl

theorem checkedRecordedInstrument_eq (e : VoiceEntry) (sample : Nat) :
    checkedRecordedInstrument e sample = .ok (recordedInstrument e sample) := by
  rw [checkedRecordedInstrument, checkedPlaceOf_eq]
  rfl

end Image

/-- A sample that is not on the shelf takes the next place, and there is room for it. -/
theorem SampleShelf.checkedFetch_eq {shelf : SampleShelf} (room : shelf.samples.size < greatestSize)
    {read : Nat → Checked (Option Sample)} {read' : Nat → Option Sample}
    (same : ∀ address, read address = .ok (read' address)) (address : Nat) :
    shelf.checkedFetch address read = .ok (shelf.fetch address read') := by
  unfold checkedFetch fetch
  cases shelf.place? address with
  | some place => rfl
  | none =>
    dsimp only
    rw [same, ok_bind]
    cases read' address with
    | none => rfl
    | some s =>
      dsimp only
      rw [checkedAdd, if_pos room]
      rfl

/-- With each fetch the shelf grows by one sample at most. -/
theorem SampleShelf.size_fetch_le (shelf : SampleShelf) (address : Nat)
    (read : Nat → Option Sample) :
    (shelf.fetch address read).2.samples.size ≤ shelf.samples.size + 1 := by
  unfold fetch
  split
  · exact Nat.le_succ _
  · split
    · simp [add]
    · exact Nat.le_succ _

namespace Image

variable {image : Image} {group index : Nat} {shelf : SampleShelf}

/-- Whatever kind of entry it is, its instrument comes out in words. -/
theorem checkedInstrument_eq (e : VoiceEntry)
    (room : shelf.samples.size < SampleShelf.greatestSize) :
    image.checkedInstrument e shelf = .ok (image.instrument e shelf) := by
  have recording := SampleShelf.checkedFetch_eq room (checkedRecording?_eq image) e.data
  have wave := SampleShelf.checkedFetch_eq room (checkedWave?_eq image) e.data
  unfold checkedInstrument instrument
  split
  · rfl
  · simp only [recording, wave, checkedToneInstrument_eq, ok_bind]
    generalize e.kind.toNat % 8 = form
    -- recording, square, square, wave, noise, and forms that nothing plays
    rcases form with _ | _ | _ | _ | _ | _
    · obtain ⟨place, shelf⟩ := shelf.fetch e.data image.recording?
      cases place with
      | none => rfl
      | some place =>
        dsimp only
        rw [checkedRecordedInstrument_eq]
        rfl
    · rfl
    · rfl
    · obtain ⟨place, shelf⟩ := shelf.fetch e.data image.wave?
      cases place <;> rfl
    · rfl
    · rfl

/-- An entry puts at most one sample on the shelf. -/
theorem size_instrument_le (image : Image) (e : VoiceEntry) (shelf : SampleShelf) :
    (image.instrument e shelf).2.samples.size ≤ shelf.samples.size + 1 := by
  obtain ⟨read, -, same, -⟩ | ⟨-, same, -⟩ := instrument_cases image e shelf
  · rw [same]
    exact shelf.size_fetch_le e.data read
  · rw [same]
    exact Nat.le_succ _

/-- Many entries put at most one sample each on the shelf. -/
theorem size_shelve_le (image : Image) (entries : List VoiceEntry) (shelf : SampleShelf) :
    (image.shelve entries shelf).samples.size ≤ shelf.samples.size + entries.length := by
  induction entries generalizing shelf with
  | nil => exact Nat.le_refl _
  | cons e entries ih =>
    have first := size_instrument_le image e shelf
    have rest := ih (image.instrument e shelf).2
    rw [shelve_cons, List.length_cons]
    omega

theorem size_groupInstrument_le (image : Image) (group index : Nat) (shelf : SampleShelf) :
    (image.groupInstrument group index shelf).2.samples.size ≤ shelf.samples.size + 1 := by
  have one : (image.voiceEntryAt? group index).toList.length ≤ 1 := by
    cases image.voiceEntryAt? group index <;> simp
  rw [groupInstrument_snd]
  exact Nat.le_trans (size_shelve_le ..) (Nat.add_le_add_left one _)

/-- An instrument of a group, by the group and the place in it. -/
theorem checkedGroupInstrument_eq (near : group < 2 ^ 25) (low : index < 2 ^ 8)
    (room : shelf.samples.size < SampleShelf.greatestSize) :
    image.checkedGroupInstrument group index shelf =
      .ok (image.groupInstrument group index shelf) := by
  unfold checkedGroupInstrument groupInstrument
  rw [checkedVoiceEntryAt?_eq near low, ok_bind]
  cases image.voiceEntryAt? group index with
  | none => rfl
  | some e =>
    dsimp only
    rw [checkedInstrument_eq e room]
    rfl

end Image
end Chiptune
