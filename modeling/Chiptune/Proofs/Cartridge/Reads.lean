import Chiptune.Proofs.Cartridge.Shelf

/-!
# Which entries a voice group reads

The loops over keys and programs carry the shelf along, but which entries they read, and in which
order, depends on the image alone (`splitReads`, `kitReads`, `entryReads`, `groupReads`). So the
shelf that a loop leaves behind is `Image.shelve` of these entries, and each program is the one that
its entry gives on the shelf of everything before it (`program?_voiceGroup`).
-/

namespace Chiptune

/-! ## Entries that the image holds

An entry is there if all of its twelve bytes are inside the image. Entries follow each other, so
that behind the first one that is missing there is none. -/

theorem Bytes.isSome_little? {b : ByteArray} {width i : Nat} (inside : i + width ≤ b.size) :
    (little? b width i).isSome := by
  induction width generalizing i with
  | zero => rfl
  | succ width ih =>
    obtain ⟨high, hhigh⟩ := Option.isSome_iff_exists.mp (ih (i := i + 1) (by omega))
    have low : b[i]? = some b[i] := getElem?_pos b i (by omega)
    simp [little?, hhigh, low]

namespace Image

variable {image : Image} {group sub index : Nat} {map : ByteArray} {keys ids : List Nat}
  {e : VoiceEntry} {shelf : SampleShelf}

/-- An entry can be read exactly when all of it is inside the image. -/
theorem isSome_voiceEntryAt? :
    (image.voiceEntryAt? group index).isSome ↔
      group + index * voiceEntrySize + voiceEntrySize ≤ image.bytes.size := by
  unfold voiceEntryAt? voiceEntrySize
  generalize group + index * 12 = i
  constructor
  · intro held
    obtain ⟨e, read⟩ := Option.isSome_iff_exists.mp held
    simp only [Option.bind_eq_bind, Option.bind_eq_some_iff] at read
    obtain ⟨_, -, _, -, _, -, _, -, _, -, _, -, _, -, release, last, -⟩ := read
    have := (getElem?_eq_some_iff.mp last).1
    omega
  · intro inside
    obtain ⟨data, hdata⟩ := Option.isSome_iff_exists.mp
      (Bytes.isSome_little? (show i + 4 + 4 ≤ image.bytes.size by omega))
    have byte (k : Nat) (below : k < 12) : image.bytes[i + k]? = some image.bytes[i + k] :=
      getElem?_pos image.bytes (i + k) (by omega)
    have first : image.bytes[i]? = some image.bytes[i] := byte 0 (by omega)
    simp [hdata, first, byte 1, byte 3, byte 8, byte 9, byte 10, byte 11]

/-- A group has no entry behind one that the image does not hold. -/
theorem voiceEntryAt?_eq_none {later : Nat} (missing : image.voiceEntryAt? group index = none)
    (behind : index ≤ later) : image.voiceEntryAt? group later = none := by
  rw [← Option.not_isSome_iff_eq_none, isSome_voiceEntryAt?] at missing ⊢
  have := Nat.mul_le_mul_right voiceEntrySize behind
  omega

/-! ## The entries that are read

One list of entries for each loop of the loader. None of them looks at the shelf: what is read, and
in which order, is a matter of the image. -/

/-- What a split reads at a key: the entry of the map, where a run of equal ones ends. -/
def splitRead? (image : Image) (sub : Nat) (map : ByteArray) (key : Nat) : Option VoiceEntry :=
  map[key]?.bind fun index =>
    if map[key + 1]? = some index then none else image.voiceEntryAt? sub index.toNat

/-- What a split reads at some of its keys. -/
def splitReads (image : Image) (sub : Nat) (map : ByteArray) (keys : List Nat) :
    List VoiceEntry :=
  keys.filterMap (image.splitRead? sub map)

/-- What a drum kit reads at some of its keys. -/
def kitReads (image : Image) (sub : Nat) (keys : List Nat) : List VoiceEntry :=
  keys.filterMap (image.voiceEntryAt? sub)

/-- The group and the key map of a split, if the image holds both. -/
def splitParts? (image : Image) (e : VoiceEntry) : Option (Nat × ByteArray) := do
  let sub ← image.offset? e.data
  let map ← (image.offset? e.keyMap).bind (Bytes.slice? image.bytes · keyCount)
  return (sub, map)

/-- What the program of an entry reads. -/
def entryReads (image : Image) (e : VoiceEntry) : List VoiceEntry :=
  if e.kind = keySplitKind then
    match image.splitParts? e with
    | some (sub, map) => image.splitReads sub map (List.range keyCount)
    | none => []
  else if e.kind = drumkitKind then
    match image.offset? e.data with
    | some sub => image.kitReads sub (List.range keyCount)
    | none => []
  else [e]

/-- What some programs of a group read, up to the first entry that the image does not hold. -/
def groupReads (image : Image) (group : Nat) : (ids : List Nat) → List VoiceEntry
  | [] => []
  | id :: ids =>
    match image.voiceEntryAt? group id with
    | some e => image.entryReads e ++ image.groupReads group ids
    | none => []

/-! ## What the loops leave on the shelf

Each loop leaves the shelf as it is after its list of entries has been read, one behind the other.
For the loop over a split this needs the size of its map, because the loop looks one key ahead. -/

/-- To read an instrument of a group puts the sample of its entry on the shelf. -/
theorem groupInstrument_snd :
    (image.groupInstrument group index shelf).2 =
      image.shelve (image.voiceEntryAt? group index).toList shelf := by
  unfold groupInstrument
  split
  · next found => simp [found]
  · next missing => simp [missing]

theorem groupInstrument_fst :
    (image.groupInstrument group index shelf).1 =
      (image.voiceEntryAt? group index).bind fun e =>
        (image.instrument e shelf).1.map (e.baseKey, ·) := by
  unfold groupInstrument
  split
  · next found => simp [found]
  · next missing => simp [missing]

/-- The region of a key that a run ends at, if its entry can be played. -/
def regionAt (key : Nat) (found : Option (Nat × Instrument)) : List KeyRegion :=
  (found.map fun (_, instrument) => ⟨key, instrument⟩).toList

/-- Inside a run the loop over the keys passes on. -/
theorem regions_inside {key : Nat} {place : UInt8} (here : map[key]? = some place)
    (next : map[key + 1]? = some place) :
    image.regions sub map (key :: keys) shelf = image.regions sub map keys shelf := by
  simp [regions, here, next]

/-- At the end of a run the loop over the keys reads the entry of the run. -/
theorem regions_end {key : Nat} {place : UInt8} (here : map[key]? = some place)
    (ends : map[key + 1]? ≠ some place) :
    image.regions sub map (key :: keys) shelf =
      let (found, shelf) := image.groupInstrument sub place.toNat shelf
      let (rest, shelf) := image.regions sub map keys shelf
      (regionAt key found ++ rest, shelf) := by
  simp only [regions, here, if_neg ends]
  cases (image.groupInstrument sub place.toNat shelf).1 <;> rfl

/-- Within a run of keys with one place nothing is read. -/
theorem splitReads_inside {key : Nat} {place : UInt8} (here : map[key]? = some place)
    (next : map[key + 1]? = some place) :
    image.splitReads sub map (key :: keys) = image.splitReads sub map keys := by
  simp [splitReads, splitRead?, here, next]

/-- At the end of a run the entry of that place is read. -/
theorem splitReads_end {key : Nat} {place : UInt8} (here : map[key]? = some place)
    (ends : map[key + 1]? ≠ some place) :
    image.splitReads sub map (key :: keys) =
      (image.voiceEntryAt? sub place.toNat).toList ++ image.splitReads sub map keys := by
  cases read : image.voiceEntryAt? sub place.toNat <;>
    simp [splitReads, splitRead?, here, ends, read]

/-- A drum kit puts on the shelf what the entries of its keys say, key by key. -/
theorem drums_snd :
    (image.drums sub keys shelf).2 = image.shelve (image.kitReads sub keys) shelf := by
  induction keys generalizing shelf with
  | nil => rfl
  | cons key keys ih =>
    simp only [drums, kitReads, ih, groupInstrument_snd, List.filterMap_cons]
    cases image.voiceEntryAt? sub key <;> rfl

/-- A key split puts on the shelf what its entries say, one for each run of keys with the same
place. -/
theorem regions_snd (inside : ∀ key ∈ keys, key < map.size) :
    (image.regions sub map keys shelf).2 =
      image.shelve (image.splitReads sub map keys) shelf := by
  induction keys generalizing shelf with
  | nil => rfl
  | cons key keys ih =>
    have rest (s : SampleShelf) : (image.regions sub map keys s).2 = _ :=
      ih fun k hk => inside k (List.mem_cons_of_mem _ hk)
    obtain ⟨place, here⟩ : ∃ place, map[key]? = some place :=
      ⟨_, getElem?_pos map key (inside key List.mem_cons_self)⟩
    by_cases next : map[key + 1]? = some place
    · rw [regions_inside here next, splitReads_inside here next, rest]
    · rw [regions_end here next, splitReads_end here next, shelve_append]
      simp only [rest, groupInstrument_snd]

/-- The map of a key split has a place for every key. -/
theorem size_of_splitParts? (parts : image.splitParts? e = some (sub, map)) :
    map.size = keyCount := by
  simp only [splitParts?, Option.bind_eq_bind, Option.bind_eq_some_iff] at parts
  obtain ⟨_, -, _, ⟨_, -, cut⟩, parts⟩ := parts
  cases parts
  unfold Bytes.slice? at cut
  split at cut
  · cases cut
    simp only [ByteArray.size_extract]
    omega
  · cases cut

/-- A split whose parts the image holds is made of the regions of its map. -/
theorem keySplit_of_parts (parts : image.splitParts? e = some (sub, map)) :
    image.keySplit e shelf =
      let (regions, shelf) := image.regions sub map (List.range keyCount) shelf
      (if regions.isEmpty then none else some (.keySplit regions), shelf) := by
  simp only [splitParts?, Option.bind_eq_bind, Option.bind_eq_some_iff] at parts
  obtain ⟨_, hsub, _, hmap, parts⟩ := parts
  cases parts
  simp only [keySplit, hsub, Option.bind_eq_some_iff.mpr hmap]
  cases image.regions sub map (List.range keyCount) shelf with
  | mk regions shelf => cases regions <;> rfl

/-- A key split that cannot be read puts nothing on the shelf. -/
theorem keySplit_of_none (parts : image.splitParts? e = none) :
    image.keySplit e shelf = (none, shelf) := by
  unfold keySplit
  split
  · next hsub hmap => simp [splitParts?, hsub, hmap] at parts
  · rfl

/-- The three ways in which an entry makes a program, each with what it reads. -/
theorem program_cases {program : Program} (made : (image.program e shelf).1 = some program) :
    (∃ sub map, image.splitParts? e = some (sub, map) ∧
        image.entryReads e = image.splitReads sub map (List.range keyCount) ∧
        program = .keySplit (image.regions sub map (List.range keyCount) shelf).1) ∨
      (∃ sub, image.offset? e.data = some sub ∧
        image.entryReads e = image.kitReads sub (List.range keyCount) ∧
        program = .drumkit (image.drums sub (List.range keyCount) shelf).1.toArray) ∨
      ∃ i, (image.instrument e shelf).1 = some i ∧ image.entryReads e = [e] ∧
        program = .single i := by
  unfold Image.program at made
  unfold entryReads
  split at made
  -- the kind of the entry decides, in the order in which the program asks for it
  · next split =>
    rw [if_pos split]
    cases parts : image.splitParts? e with
    | none =>
      rw [keySplit_of_none parts] at made
      cases made
    | some part =>
      obtain ⟨sub, map⟩ := part
      simp only [keySplit_of_parts parts] at made
      split at made
      · cases made
      · cases made
        exact .inl ⟨sub, map, rfl, rfl, rfl⟩
  · next whole =>
    rw [if_neg whole]
    split at made
    · next kit =>
      rw [if_pos kit]
      unfold drumkit at made
      cases kept : image.offset? e.data with
      | none => simp [kept] at made
      | some sub =>
        simp only [kept] at made
        split at made
        · cases made
        · cases made
          exact .inr (.inl ⟨sub, rfl, rfl, rfl⟩)
    · next single =>
      rw [if_neg single]
      obtain ⟨i, given, rfl⟩ := Option.map_eq_some_iff.mp made
      exact .inr (.inr ⟨i, given, rfl, rfl⟩)

/-- A program leaves the shelf as reading its entries does. -/
theorem program_snd : (image.program e shelf).2 = image.shelve (image.entryReads e) shelf := by
  unfold program entryReads
  split
  · cases parts : image.splitParts? e with
    | none => simp [keySplit_of_none parts]
    | some part =>
      obtain ⟨sub, map⟩ := part
      have inside : ∀ key ∈ List.range keyCount, key < map.size := by
        simp [size_of_splitParts? parts]
      simp [keySplit_of_parts parts, regions_snd inside]
  · split
    · unfold drumkit
      cases image.offset? e.data with
      | none => rfl
      | some sub => simp [drums_snd]
    · rfl

/-- All programs of a group put on the shelf what their entries say, one after another. -/
theorem programs_snd :
    (image.programs group ids shelf).2 = image.shelve (image.groupReads group ids) shelf := by
  induction ids generalizing shelf with
  | nil => rfl
  | cons id ids ih =>
    unfold programs groupReads
    cases image.voiceEntryAt? group id with
    | none => rfl
    | some e => simp [ih, program_snd]

/-! ## The programs of a group

The programs are read in their order, each one on the shelf that the programs before it have left.
Hence a program of the bank is known as soon as the shelf before it is. -/

/-- The shelf that a program of a group finds. -/
def shelfBefore (image : Image) (group id : Nat) : SampleShelf :=
  image.shelve (image.groupReads group (List.range id)) {}

theorem aligned_shelfBefore {id : Nat} : (image.shelfBefore group id).Aligned :=
  aligned_shelve SampleShelf.aligned_empty

theorem programs_getElem? (shelf : SampleShelf) (start count j : Nat) :
    (image.programs group (List.range' start count) shelf).1[j]?.join =
      if j < count then
        (image.voiceEntryAt? group (start + j)).bind fun e =>
          (image.program e
            (image.shelve (image.groupReads group (List.range' start j)) shelf)).1
      else none := by
  induction count generalizing start shelf j with
  | zero => simp [programs]
  | succ count ih =>
    rw [List.range'_succ]
    unfold programs
    cases first : image.voiceEntryAt? group start with
    | none =>
      -- the loop ends here, and the image holds no later entry either
      have missing := voiceEntryAt?_eq_none first (Nat.le_add_right start j)
      simp [missing]
    | some e =>
      cases j with
      | zero => simp [first, groupReads]
      | succ j =>
        have rest := ih (image.shelve (image.entryReads e) shelf) (start + 1) j
        have shift : start + 1 + j = start + (j + 1) := by omega
        rw [shift] at rest
        simp [rest, List.range'_succ, groupReads, first, program_snd]

/-- Each program of a voice group is the one that its entry gives on the shelf of all that was read
before. -/
theorem program?_voiceGroup (id : Nat) :
    (image.voiceGroup group).program? id =
      if id < voiceGroupSize then
        (image.voiceEntryAt? group id).bind fun e =>
          (image.program e (image.shelfBefore group id)).1
      else none := by
  simp only [Bank.program?, voiceGroup, List.getElem?_toArray, List.range_eq_range',
    programs_getElem?, Nat.zero_add, shelfBefore]

/-- The samples of a group are those on the shelf when all its programs have been read. -/
theorem sample?_voiceGroup (i : Nat) :
    (image.voiceGroup group).sample? i = (image.shelfBefore group voiceGroupSize).samples[i]? := by
  simp only [Bank.sample?, voiceGroup, programs_snd, shelfBefore]

/-- A group reads each of its entries behind all that comes before. -/
theorem groupReads_range' {start count j : Nat} (below : j < count)
    (held : image.voiceEntryAt? group (start + j) = some e) :
    ∃ later, image.groupReads group (List.range' start count) =
      image.groupReads group (List.range' start j) ++ (image.entryReads e ++ later) := by
  induction j generalizing start count with
  | zero =>
    obtain ⟨count, rfl⟩ := Nat.exists_eq_succ_of_ne_zero (Nat.ne_of_gt below)
    refine ⟨image.groupReads group (List.range' (start + 1) count), ?_⟩
    simp [List.range'_succ, groupReads, show image.voiceEntryAt? group start = some e from held]
  | succ j ih =>
    obtain ⟨count, rfl⟩ := Nat.exists_eq_succ_of_ne_zero (Nat.ne_of_gt (Nat.zero_lt_of_lt below))
    cases first : image.voiceEntryAt? group start with
    | none => rw [voiceEntryAt?_eq_none first (Nat.le_add_right start (j + 1))] at held; cases held
    | some f =>
      have shift : start + (j + 1) = start + 1 + j := by omega
      obtain ⟨later, rest⟩ := ih (Nat.lt_of_succ_lt_succ below) (shift ▸ held)
      exact ⟨later, by simp [List.range'_succ, groupReads, first, rest]⟩

end Image
end Chiptune
