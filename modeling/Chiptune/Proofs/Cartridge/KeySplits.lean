import Chiptune.Proofs.Cartridge.Reads
import Mathlib.Data.List.Intervals

/-!
# Key splits

A key split names an entry for each key, and the loader keeps one region for each run of equal
names, known by the last key of the run. A run whose entry cannot be played leaves no region, so
its keys fall to whatever region comes next. So a key plays the first entry that can be played among
the ones that the map names from this key on (`resolve_keySplit`): its own entry where that one can
be played, as it should be, but an entry of higher keys where it cannot (`gappedSplit`).
-/

namespace Chiptune

namespace Image

variable {image : Image} {group sub : Nat} {map : ByteArray} {e : VoiceEntry} {shelf : SampleShelf}
  {key : Nat} {place : UInt8}

/-! ## What the map names at a key

A run of equal names has one instrument, which is read when the loader comes to its last key. So the
instrument that is named at a key is the one that is read there or further up, on the shelf that the
loader has by then. -/

/-- The shelf that a split finds when it comes to a key. -/
def shelfAtKey (image : Image) (sub : Nat) (map : ByteArray) (shelf : SampleShelf) (key : Nat) :
    SampleShelf :=
  image.shelve (image.splitReads sub map (List.range key)) shelf

/-- The instrument of the entry that the map names at a key, if that entry can be played. -/
def namedAt? (image : Image) (sub : Nat) (map : ByteArray) (shelf : SampleShelf) (key : Nat) :
    Option Instrument :=
  map[key]?.bind fun place =>
    (image.groupInstrument sub place.toNat (image.shelfAtKey sub map shelf key)).1.map (·.2)

theorem shelfAtKey_succ :
    image.shelfAtKey sub map shelf (key + 1) =
      image.shelve (image.splitRead? sub map key).toList (image.shelfAtKey sub map shelf key) := by
  unfold shelfAtKey splitReads
  rw [List.range_succ, List.filterMap_append, shelve_append]
  cases read : image.splitRead? sub map key <;> simp [read]

/-- Nothing is read inside a run. -/
theorem shelfAtKey_inside (here : map[key]? = some place) (next : map[key + 1]? = some place) :
    image.shelfAtKey sub map shelf (key + 1) = image.shelfAtKey sub map shelf key := by
  simp [shelfAtKey_succ, splitRead?, here, next]

theorem shelfAtKey_end (here : map[key]? = some place) (ends : map[key + 1]? ≠ some place) :
    image.shelfAtKey sub map shelf (key + 1) =
      (image.groupInstrument sub place.toNat (image.shelfAtKey sub map shelf key)).2 := by
  simp [shelfAtKey_succ, splitRead?, here, ends, groupInstrument_snd]

/-- All keys of a run have the same instrument, or none. -/
theorem namedAt?_inside (here : map[key]? = some place) (next : map[key + 1]? = some place) :
    image.namedAt? sub map shelf (key + 1) = image.namedAt? sub map shelf key := by
  simp only [namedAt?, here, next, shelfAtKey_inside here next]

/-! ## Looking a key up among the regions

Regions are looked through from the lowest on, and the first one whose last key is not below is
taken. Where a run has left no region, this is the region of a later run. -/

/-- The region of a key covers the keys up to it, if there is one. -/
theorem instrumentFor_regionAt (k : Nat) (found : Option (Nat × Instrument))
    (rest : List KeyRegion) :
    (Program.keySplit (regionAt key found ++ rest)).instrumentFor k =
      if k ≤ key then (found.map (·.2)).or ((Program.keySplit rest).instrumentFor k)
      else (Program.keySplit rest).instrumentFor k := by
  cases found <;> by_cases reached : k ≤ key <;>
    simp [Program.instrumentFor, regionAt, reached]

/-- What the regions of the keys from `first` on have for a key. -/
theorem instrumentFor_regions (image : Image) (sub : Nat) (shelf : SampleShelf)
    (k first count : Nat) (all : first + count = map.size) :
    (Program.keySplit (image.regions sub map (List.range' first count)
        (image.shelfAtKey sub map shelf first)).1).instrumentFor k =
      ((List.range' first count).filter (k ≤ ·)).findSome? (image.namedAt? sub map shelf) := by
  -- the loop has come to `first` with the shelf of all keys before it
  induction count generalizing first with
  | zero => rfl
  | succ count ih =>
    have rest := ih (first + 1) (by omega)
    obtain ⟨place, here⟩ : ∃ place, map[first]? = some place :=
      ⟨_, getElem?_pos map first (by omega)⟩
    rw [List.range'_succ]
    by_cases next : map[first + 1]? = some place
    · -- the key behind is of the same run and has what this one has
      rw [regions_inside here next, ← shelfAtKey_inside here next, rest]
      obtain ⟨count, rfl⟩ : ∃ n, count = n + 1 :=
        Nat.exists_eq_succ_of_ne_zero (by have := (getElem?_eq_some_iff.mp next).1; omega)
      by_cases reached : k ≤ first
      · have beyond : k ≤ first + 1 := by omega
        cases named : image.namedAt? sub map shelf first <;>
          simp [List.range'_succ, reached, beyond, named, namedAt?_inside here next]
      · simp [reached]
    · -- the run ends, and leaves a region if its entry can be played
      have named : image.namedAt? sub map shelf first =
          (image.groupInstrument sub place.toNat
            (image.shelfAtKey sub map shelf first)).1.map (·.2) := by
        rw [namedAt?, here, Option.bind_some]
      rw [shelfAtKey_end here next] at rest
      rw [regions_end here next, instrumentFor_regionAt, ← named, rest]
      by_cases reached : k ≤ first
      · cases played : image.namedAt? sub map shelf first <;> simp [reached, played]
      · simp [reached]

/-- A split whose parts the image holds plays the first instrument that its map names at a key or
behind it. -/
theorem instrumentFor_keySplit (k : Nat) (parts : image.splitParts? e = some (sub, map)) :
    (image.keySplit e shelf).1.bind (·.instrumentFor k) =
      (List.Ico k keyCount).findSome? (image.namedAt? sub map shelf) := by
  have found := instrumentFor_regions image sub shelf k 0 keyCount
    (by rw [size_of_splitParts? parts, Nat.zero_add])
  have behind : (List.range keyCount).filter (k ≤ ·) = List.Ico k keyCount := by
    rw [← List.Ico.zero_bot, List.Ico.filter_le, Nat.max_eq_right (Nat.zero_le k)]
  have start : image.shelfAtKey sub map shelf 0 = shelf := rfl
  rw [← List.range_eq_range', start, behind] at found
  rw [← found, keySplit_of_parts parts]
  generalize image.regions sub map (List.range keyCount) shelf = read
  obtain ⟨regions, shelf⟩ := read
  cases regions <;> rfl

/-! ## Resolving a split

The two views come together: the regions that the loader leaves and the entries that the map names.
What `Bank.resolve` finds is stated in terms of the map, and the region list does not occur any
more. -/

/-- An entry that could be played alone is the one that its keys play. -/
theorem namedAt?_of_alone {x : VoiceEntry} (h : shelf.Aligned) (here : map[key]? = some place)
    (held : image.voiceEntryAt? sub place.toNat = some x)
    (alone : (image.instrument x {}).1.isSome) :
    ∃ sample i, x.instrumentAt sample = some i ∧ image.namedAt? sub map shelf key = some i := by
  have aligned : (image.shelfAtKey sub map shelf key).Aligned := aligned_shelve h
  obtain ⟨i, played⟩ :=
    Option.isSome_iff_exists.mp (instrument_isSome_of_alone aligned alone)
  refine ⟨_, i, (instrument_fst aligned).symm.trans played, ?_⟩
  simp [namedAt?, here, groupInstrument_fst, held, played]

/-- What a split program plays at a key is looked for among the entries of this key and the keys
behind it. -/
theorem resolve_of_parts {p : Nat} (k : Nat) (below : p < voiceGroupSize)
    (held : image.voiceEntryAt? group p = some e) (split : e.kind = keySplitKind)
    (parts : image.splitParts? e = some (sub, map)) :
    (image.voiceGroup group).resolve p k =
      ((List.Ico k keyCount).findSome?
        (image.namedAt? sub map (image.shelfBefore group p))).map
          (fun i => (i, i.soundingKey k)) := by
  have program : (image.voiceGroup group).program? p =
      (image.keySplit e (image.shelfBefore group p)).1 := by
    rw [program?_voiceGroup, if_pos below, held, Option.bind_some, Image.program, if_pos split]
  rw [← instrumentFor_keySplit k parts, ← program]
  unfold Bank.resolve
  cases (image.voiceGroup group).program? p with
  | none => rfl
  | some program => cases voice : program.instrumentFor k <;> simp [voice]

/-- A split program plays at each key the first instrument among those of the entries that its map
names there and at the keys behind. Where the entry that the map names at the key itself can be
played, this is the instrument of that entry. -/
theorem resolve_keySplit {p k : Nat} (below : p < voiceGroupSize)
    (held : image.voiceEntryAt? group p = some e) (split : e.kind = keySplitKind)
    (parts : image.splitParts? e = some (sub, map)) :
    (image.voiceGroup group).resolve p k =
        ((List.Ico k keyCount).findSome?
          (image.namedAt? sub map (image.shelfBefore group p))).map
            (fun i => (i, i.soundingKey k)) ∧
      ∀ place x, map[k]? = some place → image.voiceEntryAt? sub place.toNat = some x →
        (image.instrument x {}).1.isSome →
        ∃ sample i, x.instrumentAt sample = some i ∧
          (image.voiceGroup group).resolve p k = some (i, i.soundingKey k) := by
  have resolved := resolve_of_parts k below held split parts
  refine ⟨resolved, fun place x here heldThere alone => ?_⟩
  obtain ⟨sample, i, voiced, named⟩ := namedAt?_of_alone
    (aligned_shelfBefore : (image.shelfBefore group p).Aligned) here heldThere alone
  have inside : k < keyCount := size_of_splitParts? parts ▸ (getElem?_eq_some_iff.mp here).1
  refine ⟨sample, i, voiced, ?_⟩
  rw [resolved, List.Ico.eq_cons inside]
  simp [named]

/-! ## A split with a gap

An image in which the two views differ: the lower half of the keys names an entry that nothing can
play, and what is heard there is the upper half. -/

/-- An entry that splits the keys between the two entries behind it. -/
def splitEntry : VoiceEntry := ⟨keySplitKind, 0, 0, 0x0800000C, ⟨0x24, 0, 0, 8⟩⟩

/-- Three entries: `splitEntry`, one that nothing can play, and a square wave. -/
def gappedEntries : List UInt8 :=
  [0x40, 0, 0, 0, 0x0C, 0, 0, 0x08, 0x24, 0, 0, 0x08,
    0x07, 60, 0, 0, 0, 0, 0, 0, 0, 0, 0, 0,
    0x01, 60, 0, 0, 2, 0, 0, 0, 0, 0, 15, 0]

/-- The lower half of the keys on the first entry, the upper half on the second. -/
def twoHalves : List UInt8 := List.replicate 60 0 ++ List.replicate 68 1

/-- A voice group that begins with a split of which nothing can play the lower half. -/
def gappedSplit : Image where
  bytes := ⟨⟨gappedEntries ++ twoHalves⟩⟩

theorem splitParts?_gappedSplit :
    gappedSplit.splitParts? splitEntry = some (12, ⟨⟨twoHalves⟩⟩) := by
  have pointers : gappedSplit.offset? splitEntry.data = some 12 ∧
      gappedSplit.offset? splitEntry.keyMap = some 36 := by decide +kernel
  have cut : Bytes.slice? gappedSplit.bytes 36 keyCount = some ⟨⟨twoHalves⟩⟩ := by
    have upper : gappedSplit.bytes.extract 36 (36 + keyCount) = ⟨⟨twoHalves⟩⟩ := by
      apply ByteArray.ext
      apply Array.toList_inj.mp
      rw [ByteArray.data_extract, Array.toList_extract]
      decide +kernel
    rw [Bytes.slice?, if_pos (by decide +kernel), upper]
  simp [splitParts?, pointers, cut]

theorem resolve_keySplit_gappedSplit :
    gappedSplit.voiceEntryAt? 0 0 = some splitEntry ∧
      ((gappedSplit.voiceGroup 0).resolve 0 80).isSome := by
  have held : gappedSplit.voiceEntryAt? 0 0 = some splitEntry := by decide +kernel
  obtain ⟨-, named⟩ :=
    resolve_keySplit (p := 0) (k := 80) (by decide) held rfl splitParts?_gappedSplit
  obtain ⟨sample, i, -, played⟩ := named 1 ⟨0x01, 60, 0, 2, ⟨0, 0, 15, 0⟩⟩ (by decide +kernel)
    (by decide +kernel) (by decide +kernel)
  exact ⟨held, by rw [played]; rfl⟩

/-- Key 40 is named an entry that nothing can play, and plays the entry of the keys from 60 on. -/
theorem gappedSplit_falls_through :
    gappedSplit.voiceEntryAt? 0 0 = some splitEntry ∧ splitEntry.kind = keySplitKind ∧
      gappedSplit.splitParts? splitEntry = some (12, ⟨⟨twoHalves⟩⟩) ∧
      twoHalves[40]? = some 0 ∧ (gappedSplit.groupInstrument 12 0 {}).1 = none ∧
      ((gappedSplit.voiceGroup 0).resolve 0 40).map (·.1) =
        (gappedSplit.groupInstrument 12 1 {}).1.map (·.2) ∧
      (gappedSplit.groupInstrument 12 1 {}).1.isSome := by
  have held : gappedSplit.voiceEntryAt? 0 0 = some splitEntry := by decide +kernel
  refine ⟨held, rfl, splitParts?_gappedSplit, by decide, by decide +kernel, ?_, by decide +kernel⟩
  rw [resolve_of_parts 40 (by decide) held rfl splitParts?_gappedSplit]
  decide +kernel

end Image
end Chiptune
