import Chiptune.Proofs.Cartridge.Reads

/-!
# Shared samples

Every instrument of a bank stands for an entry of the image: the entry of its program, the entry
that a key map names, or the entry of a drum (`StandsFor`). This file follows an instrument from the
moment its entry was read (`Gave`) to the finished bank. The sample that it plays there is the one
that the first entry with the same address found (`sample_of_first_reading`). That is the entry's
own reading if all entries that share the address read it in the same way; a recording and a wave
that share one do not, and the later of them plays what the earlier one read (`sharedAddress`).
-/

namespace Chiptune

/-- The place of the sample that a source plays, if it plays one. -/
def SoundSource.place? : SoundSource → Option Nat
  | pcm sample | wave sample => some sample
  | square _ | noise _ => none

/-- The instruments of a program. -/
def Program.instruments : Program → List Instrument
  | single instrument => [instrument]
  | keySplit regions => regions.map (·.instrument)
  | drumkit keys => keys.toList.filterMap id

namespace Image

variable {image : Image} {group sub n : Nat} {map : ByteArray} {keys : List Nat}
  {e x : VoiceEntry} {reads earlier later : List VoiceEntry} {shelf : SampleShelf}
  {i : Instrument} {program : Program}

/-! ## The entry behind an instrument

A program of one instrument stands for its own entry, one of a split for an entry that the key map
names, and one of a drum kit for the entry of a drum. -/

/-- Instrument `i` of the program that entry `e` makes stands for entry `x`. -/
inductive StandsFor (image : Image) (e : VoiceEntry) : Program → VoiceEntry → Instrument → Prop
  /-- The program is the instrument of its own entry. -/
  | single {i : Instrument} : StandsFor image e (.single i) e i
  /-- The key map names the entry at the last key of the region. -/
  | region {sub : Nat} {map : ByteArray} {regions : List KeyRegion} {r : KeyRegion} {index : UInt8}
      {x : VoiceEntry} (parts : image.splitParts? e = some (sub, map))
      (listed : r ∈ regions) (named : map[r.highKey]? = some index)
      (held : image.voiceEntryAt? sub index.toNat = some x) :
      StandsFor image e (.keySplit regions) x r.instrument
  /-- Drum number `key` has entry number `key` of its group. -/
  | drum {sub key : Nat} {kit : Array (Option Instrument)} {x : VoiceEntry} {i : Instrument}
      (kept : image.offset? e.data = some sub)
      (listed : kit[key]? = some (some i)) (held : image.voiceEntryAt? sub key = some x) :
      StandsFor image e (.drumkit kit) x i

/-! ## The moment an entry was read

While entries are read one behind the other, an instrument is given at one of them. What the shelf
held just then decides which sample it plays, and later readings do not change that. -/

/-- While some entries were read, one of them was `x` and gave instrument `i`. -/
def Gave (image : Image) (reads : List VoiceEntry) (shelf : SampleShelf) (x : VoiceEntry)
    (i : Instrument) : Prop :=
  ∃ before after, reads = before ++ x :: after ∧
    (image.instrument x (image.shelve before shelf)).1 = some i

theorem Gave.before (h : image.Gave reads (image.shelve earlier shelf) x i) :
    image.Gave (earlier ++ reads) shelf x i := by
  obtain ⟨before, after, rfl, given⟩ := h
  exact ⟨earlier ++ before, after, by simp, by rw [shelve_append]; exact given⟩

theorem Gave.after (h : image.Gave reads shelf x i) : image.Gave (reads ++ later) shelf x i := by
  obtain ⟨before, after, rfl, given⟩ := h
  exact ⟨before, after ++ later, by simp, given⟩

theorem gave_singleton (given : (image.instrument x shelf).1 = some i) :
    image.Gave [x] shelf x i :=
  ⟨[], [], rfl, given⟩

/-- An entry that stands for a group gives no instrument. -/
theorem Gave.plain (h : image.Gave reads shelf x i) : ¬ x.StandsForGroup := by
  intro stands
  obtain ⟨before, after, -, given⟩ := h
  have flagged : x.kind &&& (keySplitKind ||| drumkitKind) ≠ 0 := stands
  rw [instrument, if_pos flagged] at given
  cases given

/-- An instrument plays the place that it was given. -/
theorem place_of_instrumentAt {place : Option Nat} (given : x.instrumentAt place = some i)
    (plays : i.source.place? = some n) : place = some n := by
  unfold VoiceEntry.instrumentAt at given
  split at given
  · cases given
  · split at given
    · obtain ⟨sample, rfl, rfl⟩ := Option.map_eq_some_iff.mp given
      simp only [recordedInstrument] at plays
      split at plays <;> exact plays
    · cases given; cases plays
    · cases given; cases plays
    · obtain ⟨sample, rfl, rfl⟩ := Option.map_eq_some_iff.mp given
      exact plays
    · cases given; cases plays
    · cases given

/-- An instrument keeps the place of its sample to the end, and this is the place of what was first
found at the address of its entry. -/
theorem Gave.sample (h : image.Gave reads {} x i) (plays : i.source.place? = some n) :
    ∃ s, (image.shelve reads {}).samples[n]? = some s ∧
      (reads.filter (·.data = x.data)).findSome? image.ownSample? = some s := by
  obtain ⟨before, after, rfl, given⟩ := h
  have aligned : (image.shelve (before ++ x :: after) {}).Aligned :=
    aligned_shelve SampleShelf.aligned_empty
  have found : (image.shelve (before ++ x :: after) {}).place? x.data = some n := by
    rw [shelve_append]
    exact place_of_instrumentAt
      (instrumentAt_shelve after (aligned_shelve SampleShelf.aligned_empty) given) plays
  have inside := aligned.place_lt found
  refine ⟨_, Array.getElem?_eq_getElem inside, ?_⟩
  have first : (image.shelve (before ++ x :: after) {}).sample? x.data = _ :=
    sample?_shelve SampleShelf.aligned_empty
  rw [SampleShelf.sample?_empty, Option.none_or] at first
  rw [← first, SampleShelf.sample?, found, Option.bind_some, Array.getElem?_eq_getElem inside]

/-! ## What the loops give

The loops over keys give each region and each drum its instrument at a moment of the list of entries
that they read. With this, every instrument of a program is traced back to a moment. -/

/-- A region was given its instrument when the entry at its last key was read. -/
theorem gave_region {r : KeyRegion} (inside : ∀ key ∈ keys, key < map.size)
    (listed : r ∈ (image.regions sub map keys shelf).1) :
    ∃ index x, map[r.highKey]? = some index ∧ image.voiceEntryAt? sub index.toNat = some x ∧
      image.Gave (image.splitReads sub map keys) shelf x r.instrument := by
  induction keys generalizing shelf with
  | nil => cases listed
  | cons key keys ih =>
    -- what the keys behind give does not depend on the shelf that they find
    have rest (s : SampleShelf) (later : r ∈ (image.regions sub map keys s).1) :=
      ih (fun k hk => inside k (List.mem_cons_of_mem _ hk)) later
    obtain ⟨index, here⟩ : ∃ index, map[key]? = some index :=
      ⟨_, getElem?_pos map key (inside key List.mem_cons_self)⟩
    by_cases next : map[key + 1]? = some index
    · rw [regions_inside here next] at listed
      rw [splitReads_inside here next]
      exact rest shelf listed
    · -- the region is that of this run, or it comes from the keys behind
      rw [regions_end here next] at listed
      rw [splitReads_end here next]
      obtain first | later := List.mem_append.mp listed
      · simp only [regionAt, Option.mem_toList, Option.map_eq_some_iff, groupInstrument_fst,
          Option.bind_eq_some_iff] at first
        obtain ⟨_, ⟨x, held, i, given, rfl⟩, rfl⟩ := first
        refine ⟨index, x, here, held, ?_⟩
        rw [held]
        exact (gave_singleton given).after
      · obtain ⟨index', x, named, held, given⟩ := rest _ later
        rw [groupInstrument_snd] at given
        exact ⟨index', x, named, held, given.before⟩

/-- A drum was given its instrument when the entry of its key was read, but for the key that it
sounds at. -/
theorem gave_drum {j : Nat} (listed : (image.drums sub keys shelf).1[j]? = some (some i)) :
    ∃ key x given, keys[j]? = some key ∧ image.voiceEntryAt? sub key = some x ∧
      image.Gave (image.kitReads sub keys) shelf x given ∧ i = given.fixedAt x.baseKey := by
  induction keys generalizing shelf j with
  | nil => cases listed
  | cons key keys ih =>
    -- a key without an entry reads nothing, but it keeps its place in the kit
    have reads : image.kitReads sub (key :: keys) =
        (image.voiceEntryAt? sub key).toList ++ image.kitReads sub keys := by
      cases read : image.voiceEntryAt? sub key <;> simp [kitReads, read]
    rw [reads]
    cases j with
    | zero =>
      simp only [drums, List.getElem?_cons_zero, Option.some.injEq, Option.map_eq_some_iff,
        groupInstrument_fst, Option.bind_eq_some_iff] at listed
      obtain ⟨_, ⟨x, held, i, given, rfl⟩, rfl⟩ := listed
      refine ⟨key, x, i, rfl, held, ?_, rfl⟩
      rw [held]
      exact (gave_singleton given).after
    | succ j =>
      simp only [drums, List.getElem?_cons_succ] at listed
      obtain ⟨later, x, i', at_, held, given, fixed⟩ := ih listed
      rw [groupInstrument_snd] at given
      exact ⟨later, x, i', at_, held, given.before, fixed⟩

/-- Every instrument of a program stands for some entry. -/
theorem exists_standsFor (made : (image.program e shelf).1 = some program)
    (listed : i ∈ program.instruments) : ∃ x, image.StandsFor e program x i := by
  obtain ⟨sub, map, parts, -, rfl⟩ | ⟨sub, kept, -, rfl⟩ | ⟨i', -, -, rfl⟩ := program_cases made
  · obtain ⟨r, inRegions, rfl⟩ := List.mem_map.mp listed
    have inside : ∀ key ∈ List.range keyCount, key < map.size := by
      simp [size_of_splitParts? parts]
    obtain ⟨index, x, named, held, -⟩ := gave_region inside inRegions
    exact ⟨x, .region parts inRegions named held⟩
  · obtain ⟨_, inKit, rfl⟩ := List.mem_filterMap.mp listed
    obtain ⟨key, at_⟩ := List.mem_iff_getElem?.mp inKit
    obtain ⟨key', x, given, same, held, -⟩ := gave_drum (by simpa using at_)
    obtain ⟨inside, rfl⟩ := List.getElem?_eq_some_iff.mp same
    rw [List.getElem_range] at held
    exact ⟨x, .drum kept (by simpa using at_) held⟩
  · cases List.mem_singleton.mp listed
    exact ⟨e, .single⟩

/-- What stands for an entry in a program plays the sample that the entry was given. -/
theorem StandsFor.gave (stands : image.StandsFor e program x i)
    (made : (image.program e shelf).1 = some program) :
    ∃ given, image.Gave (image.entryReads e) shelf x given ∧ i.source = given.source := by
  -- a program has one shape, and what stands for a sound in it has to be of the same
  obtain ⟨sub, map, parts, reads, rfl⟩ | ⟨sub, kept, reads, rfl⟩ | ⟨i', given, reads, rfl⟩ :=
    program_cases made
  · cases stands with
    | region parts' listed named held =>
      cases parts.symm.trans parts'
      have inside : ∀ key ∈ List.range keyCount, key < map.size := by
        simp [size_of_splitParts? parts]
      obtain ⟨index, x, named', held', given⟩ := gave_region inside listed
      cases named.symm.trans named'
      cases held.symm.trans held'
      exact ⟨_, reads ▸ given, rfl⟩
  · cases stands with
    | drum kept' listed held =>
      cases kept.symm.trans kept'
      obtain ⟨key, x, i', same, held', given, rfl⟩ := gave_drum (by simpa using listed)
      obtain ⟨inside, rfl⟩ := List.getElem?_eq_some_iff.mp same
      rw [List.getElem_range] at held'
      cases held.symm.trans held'
      exact ⟨i', reads ▸ given, rfl⟩
  · cases stands with
    | single => exact ⟨i, reads ▸ gave_singleton given, rfl⟩

/-! ## The samples of a bank

At the end the shelf of the whole group tells what every instrument plays. It is what the first
entry with the same address found there, in the form in which that first entry reads it. -/

/-- Two entries with one address and one form have one reading. -/
theorem ownSample?_congr {y : VoiceEntry} (address : y.data = x.data)
    (form : y.kind.toNat % 8 = x.kind.toNat % 8) (plain : ¬ x.StandsForGroup)
    (readable : (image.ownSample? y).isSome) : image.ownSample? x = image.ownSample? y := by
  have plain' : ¬ y.StandsForGroup := fun stands => by
    rw [ownSample?, if_pos stands] at readable
    cases readable
  unfold ownSample?
  rw [if_neg plain, if_neg plain', form, address]

/-- The entries with an address that a group reads, in the order in which it reads them. -/
def readsAt (image : Image) (group address : Nat) : List VoiceEntry :=
  (image.groupReads group (List.range voiceGroupSize)).filter (·.data = address)

/-- Each instrument of a bank stands for an entry, and the sample that it plays is what the first of
all entries with the same address found there. If all that found something there read it in one
form, this is the entry's own sample, read from its address alone. -/
theorem sample_of_first_reading {p : Nat}
    (loaded : (image.voiceGroup group).program? p = some program) :
    ∃ e, image.voiceEntryAt? group p = some e ∧
      (∀ i ∈ program.instruments, ∃ x, image.StandsFor e program x i) ∧
      ∀ x i n, image.StandsFor e program x i → i.source.place? = some n →
        ∃ s, (image.voiceGroup group).sample? n = some s ∧
          (image.readsAt group x.data).findSome? image.ownSample? = some s ∧
          ((∀ y ∈ image.readsAt group x.data, (image.ownSample? y).isSome →
            y.kind.toNat % 8 = x.kind.toNat % 8) → image.ownSample? x = some s) := by
  rw [program?_voiceGroup] at loaded
  split at loaded
  · next below =>
    obtain ⟨e, held, made⟩ := Option.bind_eq_some_iff.mp loaded
    refine ⟨e, held, fun i listed => exists_standsFor made listed, fun x i n stands plays => ?_⟩
    obtain ⟨given, gave, source⟩ := stands.gave made
    obtain ⟨later, reads⟩ := groupReads_range' below
      (show image.voiceEntryAt? group (0 + p) = some e by rwa [Nat.zero_add])
    rw [← List.range_eq_range', ← List.range_eq_range'] at reads
    have whole : image.Gave (image.groupReads group (List.range voiceGroupSize)) {} x given :=
      reads ▸ gave.after.before
    obtain ⟨s, kept, first⟩ := whole.sample (source ▸ plays)
    refine ⟨s, by rw [sample?_voiceGroup]; exact kept, first, fun alike => ?_⟩
    -- whoever found the sample reads in the same form as `x`
    obtain ⟨y, rival, own⟩ := List.exists_of_findSome?_eq_some first
    have address : y.data = x.data := by simpa using (List.mem_filter.mp rival).2
    have readable : (image.ownSample? y).isSome := by rw [own]; rfl
    rw [ownSample?_congr address (alike y rival readable) whole.plain readable, own]
  · cases loaded

/-! ## A recording and a wave at one address

Two entries with one address and two forms. Each of them could be read alone, and the second one
gets the sample of the first. -/

/-- A voice group of a recording and a wave with the same address, and a recording at it: no flags,
8000 hertz, a length of 2. -/
def sharedAddress : Image where
  bytes := ⟨⟨[0x00, 60, 0, 0, 0x18, 0, 0, 0x08, 255, 0, 255, 0,
    0x03, 60, 0, 0, 0x18, 0, 0, 0x08, 0, 0, 15, 0,
    0, 0, 0, 0, 0x00, 0x00, 0x7D, 0x00, 0, 0, 0, 0, 2, 0, 0, 0, 0x10, 0x20]⟩⟩

/-- The entry of the recording. -/
def recordingEntry : VoiceEntry := ⟨0x00, 60, 0, 0x08000018, ⟨255, 0, 255, 0⟩⟩

theorem sample_of_first_reading_sharedAddress :
    sharedAddress.voiceEntryAt? 0 0 = some recordingEntry ∧
      ∃ s, (sharedAddress.voiceGroup 0).sample? 0 = some s ∧
        (sharedAddress.readsAt 0 recordingEntry.data).findSome? sharedAddress.ownSample? =
          some s := by
  have held : sharedAddress.voiceEntryAt? 0 0 = some recordingEntry := by decide +kernel
  have single : ((sharedAddress.voiceGroup 0).program? 0).bind
      (fun | .single i => some i | _ => none) = some (recordedInstrument recordingEntry 0) := by
    decide +kernel
  obtain ⟨program, loaded, shape⟩ := Option.bind_eq_some_iff.mp single
  cases program with
  | single i =>
    cases shape
    obtain ⟨e, held', -, sampled⟩ := sample_of_first_reading loaded
    cases held.symm.trans held'
    obtain ⟨s, kept, first, -⟩ := sampled recordingEntry _ 0 .single rfl
    exact ⟨held, s, kept, first⟩
  | keySplit regions => cases shape
  | drumkit kit => cases shape

/-- The wave of `sharedAddress` plays the recording, though it could be read on its own. -/
theorem sharedAddress_plays_recording :
    ((sharedAddress.voiceGroup 0).resolve 1 60).map (·.1.source) = some (.wave 0) ∧
      (sharedAddress.voiceEntryAt? 0 1).bind sharedAddress.ownSample? =
        sharedAddress.wave? 0x08000018 ∧
      (sharedAddress.wave? 0x08000018).isSome ∧
      (sharedAddress.voiceGroup 0).sample? 0 = sharedAddress.recording? 0x08000018 ∧
      (sharedAddress.voiceGroup 0).sample? 0 ≠ sharedAddress.wave? 0x08000018 := by
  decide +kernel

end Image
end Chiptune
