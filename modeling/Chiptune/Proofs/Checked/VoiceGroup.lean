import Chiptune.Proofs.Checked.Instrument

/-!
# Voice groups in words

A voice group is read entry by entry, and an entry may lead to one more entry for each key. Keys and
programs are numbered by words of 8 bits, and there are 128 of each.

What a bank cannot do is to name more samples than its numbers can tell apart. A voice group reads
at most 128 entries for each of its 128 programs, so it is far from that
(`Image.checkedVoiceGroup_eq`).
-/

namespace Chiptune.Image

open Checked

/-! ## Calculations

Key splits and drum kits go through all keys, and a group goes through all programs. Keys and
programs are counted in words of 8 bits, places in words of 64. -/

/-- The key is the last one of a run: the next one, if there is one, has another entry. -/
def checkedEndsRun (map : ByteArray) (key : Nat) (index : UInt8) : Checked Bool :=
  if key < keyCount - 1 then do
    let next ← entry map.data (key + 1)
    return next != index
  else return true

def checkedRegions (image : Image) (group : Nat) (map : ByteArray) :
    (keys : List Nat) → SampleShelf → Checked (List KeyRegion × SampleShelf)
  | [], shelf => return ([], shelf)
  | key :: keys, shelf => do
    let index ← entry map.data key
    if ← checkedEndsRun map key index then do
      let (found, shelf) ← image.checkedGroupInstrument group index.toNat shelf
      let highKey ← word 8 key
      let (rest, shelf) ← image.checkedRegions group map keys shelf
      return (regionAt highKey found ++ rest, shelf)
    else image.checkedRegions group map keys shelf

def checkedKeySplit (image : Image) (e : VoiceEntry) (shelf : SampleShelf) :
    Checked (Option Program × SampleShelf) :=
  match image.offset? e.data, image.offset? e.keyMap with
  | some group, some place => do
    match ← Bytes.checkedSlice? image.bytes place keyCount with
    | some map => do
      let (regions, shelf) ← image.checkedRegions group map (List.range keyCount) shelf
      return (if regions.isEmpty then none else some (.keySplit regions), shelf)
    | none => return (none, shelf)
  | _, _ => return (none, shelf)

def checkedDrums (image : Image) (group : Nat) :
    (keys : List Nat) → SampleShelf → Checked (List (Option Instrument) × SampleShelf)
  | [], shelf => return ([], shelf)
  | key :: keys, shelf => do
    let (found, shelf) ← image.checkedGroupInstrument group key shelf
    let (rest, shelf) ← image.checkedDrums group keys shelf
    return (found.map (fun (baseKey, i) => i.fixedAt baseKey) :: rest, shelf)

def checkedDrumkit (image : Image) (e : VoiceEntry) (shelf : SampleShelf) :
    Checked (Option Program × SampleShelf) :=
  match image.offset? e.data with
  | some group => do
    let (kit, shelf) ← image.checkedDrums group (List.range keyCount) shelf
    return (if kit.all (·.isNone) then none else some (.drumkit kit.toArray), shelf)
  | none => return (none, shelf)

def checkedProgram (image : Image) (e : VoiceEntry) (shelf : SampleShelf) :
    Checked (Option Program × SampleShelf) :=
  if e.kind = keySplitKind then image.checkedKeySplit e shelf
  else if e.kind = drumkitKind then image.checkedDrumkit e shelf
  else do
    let (i, shelf) ← image.checkedInstrument e shelf
    return (i.map .single, shelf)

def checkedPrograms (image : Image) (group : Nat) :
    (ids : List Nat) → SampleShelf → Checked (List (Option Program) × SampleShelf)
  | [], shelf => return ([], shelf)
  | id :: ids, shelf => do
    match ← image.checkedVoiceEntryAt? group id with
    | some e => do
      let (p, shelf) ← image.checkedProgram e shelf
      let _ ← word 8 id
      let (rest, shelf) ← image.checkedPrograms group ids shelf
      return (p :: rest, shelf)
    | none => return ([], shelf)

def checkedVoiceGroup (image : Image) (group : Nat) : Checked Bank := do
  let (programs, shelf) ← image.checkedPrograms group (List.range voiceGroupSize) {}
  return { samples := shelf.samples, programs := programs.toArray }

variable {image : Image} {group : Nat} {shelf : SampleShelf} {keys ids : List Nat}
  {map : ByteArray}

/-! ## Programs

Each loader in words equals the plain one as long as the shelf has room for as many samples as it
may read. A program may read one for each key, a group 128 times as many, and the bound is carried
along as the shelf grows. -/

theorem entry_data_eq {i : Nat} (inside : i < map.size) : entry map.data i = .ok map[i] :=
  entry_eq (Array.getElem?_eq_getElem inside)

/-- Behind the last key there is no entry, so a run ends there. -/
theorem checkedEndsRun_eq {key : Nat} (size : map.size = keyCount) (inside : key < keyCount)
    (index : UInt8) : checkedEndsRun map key index = .ok (map[key + 1]? != some index) := by
  unfold checkedEndsRun
  split
  · next below =>
    have next : map[key + 1]? = some map[key + 1] := getElem?_pos map (key + 1) (by omega)
    rw [entry_data_eq (by omega), next]
    rfl
  · next last =>
    have none : map[key + 1]? = none := getElem?_neg map (key + 1) (by omega)
    rw [none]
    rfl

/-- The loop over the keys of a split, with room for one sample more at each key. -/
theorem checkedRegions_eq (near : group < 2 ^ 25) (size : map.size = keyCount)
    (inside : ∀ key ∈ keys, key < keyCount)
    (room : shelf.samples.size + keys.length ≤ SampleShelf.greatestSize) :
    image.checkedRegions group map keys shelf = .ok (image.regions group map keys shelf) := by
  induction keys generalizing shelf with
  | nil => rfl
  | cons key keys ih =>
    obtain ⟨here, behind⟩ := List.forall_mem_cons.mp inside
    rw [List.length_cons] at room
    have found : map[key]? = some map[key] := getElem?_pos map key (by omega)
    rw [checkedRegions, entry_data_eq (by omega), ok_bind, checkedEndsRun_eq size here, ok_bind]
    -- a run of keys goes on, or it ends here and its instrument is fetched
    by_cases goesOn : map[key + 1]? = some map[key]
    · rw [regions_inside found goesOn, if_neg (by simp [goesOn]), ih behind (by omega)]
    · have low := map[key].toNat_lt
      have byte : key < 2 ^ 8 := Nat.lt_trans here (by decide)
      have more := size_groupInstrument_le image group map[key].toNat shelf
      rw [regions_end found goesOn, if_pos (by simp [goesOn]),
        checkedGroupInstrument_eq near low (by omega), ok_bind]
      cases h : image.groupInstrument group map[key].toNat shelf with
      | mk found later =>
        rw [h] at more
        dsimp only at more ⊢
        rw [word_eq byte, ok_bind, ih behind (by omega)]
        rfl

theorem checkedDrums_eq (near : group < 2 ^ 25) (inside : ∀ key ∈ keys, key < keyCount)
    (room : shelf.samples.size + keys.length ≤ SampleShelf.greatestSize) :
    image.checkedDrums group keys shelf = .ok (image.drums group keys shelf) := by
  induction keys generalizing shelf with
  | nil => rfl
  | cons key keys ih =>
    obtain ⟨here, behind⟩ := List.forall_mem_cons.mp inside
    rw [List.length_cons] at room
    have more := size_groupInstrument_le image group key shelf
    have byte : key < 2 ^ 8 := Nat.lt_trans here (by decide)
    rw [checkedDrums, drums, checkedGroupInstrument_eq near byte (by omega), ok_bind]
    cases h : image.groupInstrument group key shelf with
    | mk found later =>
      rw [h] at more
      dsimp only at more ⊢
      rw [ih behind (by omega)]
      rfl

/-- The map of a split is read from a place that the bus maps, so that the sums of its places come
out. -/
theorem checkedKeySplit_eq (e : VoiceEntry)
    (room : shelf.samples.size + keyCount ≤ SampleShelf.greatestSize) :
    image.checkedKeySplit e shelf = .ok (image.keySplit e shelf) := by
  unfold checkedKeySplit
  cases hgroup : image.offset? e.data with
  | none =>
    rw [keySplit_of_none (by simp [splitParts?, hgroup])]
    rfl
  | some group =>
    cases hplace : image.offset? e.keyMap with
    | none =>
      rw [keySplit_of_none (by simp [splitParts?, hplace])]
      rfl
    | some place =>
      have near := offset?_lt hplace
      -- the map of keys is sliced out before anything in it is looked at
      have stop : place + keyCount < 2 ^ 64 := by unfold keyCount; omega
      dsimp only
      rw [Bytes.checkedSlice?_eq _ stop, ok_bind]
      cases hmap : Bytes.slice? image.bytes place keyCount with
      | none =>
        rw [keySplit_of_none (by simp [splitParts?, hplace, hmap])]
        rfl
      | some map =>
        have parts : image.splitParts? e = some (group, map) := by
          simp [splitParts?, hgroup, hplace, hmap]
        have inside : ∀ key ∈ List.range keyCount, key < keyCount := fun key => List.mem_range.mp
        dsimp only
        rw [keySplit_of_parts parts, checkedRegions_eq (offset?_lt hgroup)
          (size_of_splitParts? parts) inside (by rwa [List.length_range])]
        rfl

theorem checkedDrumkit_eq (e : VoiceEntry)
    (room : shelf.samples.size + keyCount ≤ SampleShelf.greatestSize) :
    image.checkedDrumkit e shelf = .ok (image.drumkit e shelf) := by
  unfold checkedDrumkit drumkit
  cases hgroup : image.offset? e.data with
  | none => rfl
  | some group =>
    have inside : ∀ key ∈ List.range keyCount, key < keyCount := fun key => List.mem_range.mp
    dsimp only
    rw [checkedDrums_eq (offset?_lt hgroup) inside (by rwa [List.length_range])]
    rfl

/-- Whatever kind of program an entry makes, it comes out in words. -/
theorem checkedProgram_eq (e : VoiceEntry)
    (room : shelf.samples.size + keyCount ≤ SampleShelf.greatestSize) :
    image.checkedProgram e shelf = .ok (image.program e shelf) := by
  have place : shelf.samples.size < SampleShelf.greatestSize :=
    Nat.lt_of_lt_of_le (Nat.lt_add_of_pos_right (by decide)) room
  unfold checkedProgram program
  split
  · exact checkedKeySplit_eq e room
  · split
    · exact checkedDrumkit_eq e room
    · rw [checkedInstrument_eq e place]
      rfl

/-- A program reads at most one entry for each key. -/
theorem length_entryReads_le (image : Image) (e : VoiceEntry) :
    (image.entryReads e).length ≤ keyCount := by
  have each {read : Nat → Option VoiceEntry} :
      ((List.range keyCount).filterMap read).length ≤ keyCount := by
    rw [← List.length_range (n := keyCount)]
    exact List.length_filterMap_le _ _
  unfold entryReads
  split
  · split
    · exact each
    · exact Nat.zero_le _
  · split
    · split
      · exact each
      · exact Nat.zero_le _
    · exact Nat.succ_le_of_lt (by decide)

/-- A program puts at most one sample for each key on the shelf. -/
theorem size_program_le (image : Image) (e : VoiceEntry) (shelf : SampleShelf) :
    (image.program e shelf).2.samples.size ≤ shelf.samples.size + keyCount := by
  rw [program_snd]
  exact Nat.le_trans (size_shelve_le ..) (Nat.add_le_add_left (length_entryReads_le image e) _)

/-- All programs of a group, with room for as many samples as they may still put on the shelf. -/
theorem checkedPrograms_eq (near : group < 2 ^ 25) (inside : ∀ id ∈ ids, id < voiceGroupSize)
    (room : shelf.samples.size + ids.length * keyCount ≤ SampleShelf.greatestSize) :
    image.checkedPrograms group ids shelf = .ok (image.programs group ids shelf) := by
  induction ids generalizing shelf with
  | nil => rfl
  | cons id ids ih =>
    obtain ⟨here, behind⟩ := List.forall_mem_cons.mp inside
    have byte : id < 2 ^ 8 := Nat.lt_trans here (by decide)
    rw [List.length_cons, Nat.succ_mul] at room
    rw [checkedPrograms, programs, checkedVoiceEntryAt?_eq near byte, ok_bind]
    cases image.voiceEntryAt? group id with
    | none => rfl
    | some e =>
      -- each program fills at most as many places of the shelf as it has keys
      have more := size_program_le image e shelf
      dsimp only
      rw [checkedProgram_eq e (by omega), ok_bind]
      cases h : image.program e shelf with
      | mk p later =>
        rw [h] at more
        dsimp only at more ⊢
        rw [word_eq byte, ok_bind, ih behind (by omega)]
        rfl

/-- A whole group comes out in words, as it starts with an empty shelf. -/
theorem checkedVoiceGroup_eq (near : group < 2 ^ 25) :
    image.checkedVoiceGroup group = .ok (image.voiceGroup group) := by
  have inside : ∀ id ∈ List.range voiceGroupSize, id < voiceGroupSize := fun id =>
    List.mem_range.mp
  have room : ({} : SampleShelf).samples.size + (List.range voiceGroupSize).length * keyCount ≤
      SampleShelf.greatestSize := by simp [SampleShelf.greatestSize, voiceGroupSize, keyCount]
  rw [checkedVoiceGroup, checkedPrograms_eq near inside room]
  rfl

end Chiptune.Image
