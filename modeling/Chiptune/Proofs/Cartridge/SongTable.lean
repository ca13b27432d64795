import Chiptune.Cartridge
import Mathlib.Algebra.Group.Nat.Defs

/-!
# Song tables and their songs

What an image holds of a song table and of a song header is said here byte by byte: an entry or a
header is a row of numbers, each with its least significant byte first (`SongEntry.bytes`,
`Image.Heads`), and it counts only if the image holds all of them. A table is the longest run
of entries that the image lists in this sense, cut at the limit (`Image.LongestRun`), and what is
read is the table, and nothing else (`Image.longestRun_iff`).

So a cartridge is made of what the image holds (`Cartridge.insert_eq_ok_iff`), and every song of it
as well (`Cartridge.song_eq_ok_iff`).
-/

namespace Chiptune

/-! ## Numbers of several bytes

What an image holds is said with lists of bytes, and no loop occurs in it. A number is read where
its bytes stand, and by this each reading becomes an equivalence. -/

namespace Bytes

variable {b : ByteArray} {i n width : Nat}

/-- A number is read where the string holds its bytes, and it fits them. -/
theorem little?_eq_some_iff :
    little? b width i = some n ↔ n < span width ∧ Holds b i (littleBytes width n) := by
  constructor
  · intro read
    induction width generalizing i n with
    | zero =>
      cases read
      exact ⟨Nat.one_pos, holds_nil⟩
    | succ width ih =>
      obtain ⟨low, hlow, read⟩ := Option.bind_eq_some_iff.mp read
      obtain ⟨high, hhigh, read⟩ := Option.bind_eq_some_iff.mp read
      cases read
      obtain ⟨fits, held⟩ := ih hhigh
      have bound := low.toNat_lt
      -- the number has its lowest byte first, and the others are the number without it
      have lowest : UInt8.ofNat (low.toNat + 256 * high) = low := by
        apply UInt8.toNat_inj.mp
        rw [UInt8.toNat_ofNat']
        omega
      have others : (low.toNat + 256 * high) / 256 = high := by omega
      refine ⟨by simp only [span]; omega, ?_⟩
      rw [littleBytes, lowest, others]
      exact holds_cons.mpr ⟨hlow, held⟩
  · rintro ⟨fits, held⟩
    exact little?_of_holds fits held

end Bytes

/-- The bytes of an entry of a song table. -/
def SongEntry.bytes (e : SongEntry) : List UInt8 :=
  Bytes.littleBytes 4 e.header ++ (Bytes.littleBytes 2 e.player ++ Bytes.littleBytes 2 e.unknown)

/-- The numbers of the entry fit their fields. -/
structure SongEntry.Fits (e : SongEntry) : Prop where
  header : e.header < 2 ^ 32
  player : e.player < 2 ^ 16
  unknown : e.unknown < 2 ^ 16

namespace Image

variable {image : Image} {limit i n pointer : Nat} {e e' : SongEntry} {h : SongHeader}
  {entries : List SongEntry}

/-- The pointer leads to an offset of the image. -/
def Points (image : Image) (pointer offset : Nat) : Prop :=
  pointer = busAddress + offset ∧ image.Reaches offset

/-- The address that a user gives stands for an offset of the image: it is one, or it is none and
leads to one. -/
def Resolves (image : Image) (address offset : Nat) : Prop :=
  image.Reaches address ∧ offset = address ∨
    ¬ image.Reaches address ∧ image.Points address offset

/-- The image holds all of the entry at `i`, and the header that it points to is inside. -/
structure Lists (image : Image) (i : Nat) (e : SongEntry) : Prop where
  fits : e.Fits
  held : Bytes.Holds image.bytes i e.bytes
  /-- The header need not be a good one, but it has to be inside. -/
  pointed : ∃ offset, image.Points e.header offset

/-- The entries are the longest run that the image lists from `i` on, cut at `limit`. -/
structure LongestRun (image : Image) (limit i : Nat) (entries : List SongEntry) : Prop where
  length_le : entries.length ≤ limit
  /-- The entries stand one behind the other. -/
  lists : ∀ k e, entries[k]? = some e → image.Lists (i + entrySize * k) e
  /-- The run does not stop before it has to. -/
  ends : entries.length < limit → ∀ e, ¬ image.Lists (i + entrySize * entries.length) e

/-- The image holds a song header at `i`: the number of its tracks, three bytes for the driver
alone, and the addresses of the voice group and of each track. -/
structure Heads (image : Image) (i : Nat) (h : SongHeader) : Prop where
  /-- The first byte counts the tracks. -/
  count : image.bytes[i]?.map UInt8.toNat = some h.tracks.length
  fits : ∀ pointer ∈ h.voiceGroup :: h.tracks, pointer < 2 ^ 32
  /-- The three bytes behind it are left out. -/
  held : Bytes.Holds image.bytes (i + 4) ((h.voiceGroup :: h.tracks).flatMap (Bytes.littleBytes 4))

/-! ## Pointers

A pointer is an offset of the image if the bus maps it. The address that a user gives may be either
an offset or a pointer. -/

theorem offset_eq_ok_iff : image.offset pointer = .ok n ↔ image.Points pointer n := by
  unfold offset Points
  rw [← offset?_eq_some_iff]
  split <;> simp_all

theorem userOffset_eq_ok_iff : image.userOffset pointer = .ok n ↔ image.Resolves pointer n := by
  unfold userOffset Resolves
  split
  · next reached => simp [reached, eq_comm]
  · next beyond => simp [beyond, offset_eq_ok_iff]

/-! ## The song table

Entries are read until one is not valid, and 2048 at most. So what is read is the longest run of
valid entries, cut there. A run is told by its members and by what stands behind it. -/

theorem songEntryAt?_eq_some_iff :
    image.songEntryAt? i = some e ↔ e.Fits ∧ Bytes.Holds image.bytes i e.bytes := by
  have widths : Bytes.span 4 = 2 ^ 32 ∧ Bytes.span 2 = 2 ^ 16 := by decide
  unfold SongEntry.bytes
  rw [Bytes.holds_append, Bytes.holds_append]
  simp only [Bytes.length_littleBytes, Nat.add_assoc, Nat.reduceAdd]
  constructor
  · intro read
    simp only [songEntryAt?, Option.bind_eq_bind, Option.bind_eq_some_iff,
      Bytes.little?_eq_some_iff, widths] at read
    obtain ⟨header, ⟨h₁, held₁⟩, player, ⟨h₂, held₂⟩, unknown, ⟨h₃, held₃⟩, same⟩ := read
    cases same
    exact ⟨⟨h₁, h₂, h₃⟩, held₁, held₂, held₃⟩
  · rintro ⟨⟨h₁, h₂, h₃⟩, held₁, held₂, held₃⟩
    simp only [songEntryAt?, Option.bind_eq_bind, Option.bind_eq_some_iff,
      Bytes.little?_eq_some_iff, widths]
    exact ⟨_, ⟨h₁, held₁⟩, _, ⟨h₂, held₂⟩, _, ⟨h₃, held₃⟩, rfl⟩

theorem validEntryAt?_eq_some_iff : image.validEntryAt? i = some e ↔ image.Lists i e := by
  have pointed : (image.offset? e.header).isSome ↔ ∃ offset, image.Points e.header offset := by
    rw [Option.isSome_iff_exists]
    exact exists_congr fun _ => offset?_eq_some_iff
  unfold validEntryAt?
  rw [Option.filter_eq_some_iff, songEntryAt?_eq_some_iff, pointed]
  constructor
  · rintro ⟨⟨fits, held⟩, pointed⟩
    exact ⟨fits, held, pointed⟩
  · rintro ⟨fits, held, pointed⟩
    exact ⟨⟨fits, held⟩, pointed⟩

/-- Entry `k + 1` of a row is entry `k` of the row behind its first entry. -/
theorem entryPlace_succ (i k : Nat) : i + entrySize * (k + 1) = i + entrySize + entrySize * k := by
  rw [Nat.mul_succ, Nat.add_assoc, Nat.add_comm entrySize]

theorem longestRun_songEntries (image : Image) (limit i : Nat) :
    image.LongestRun limit i (image.songEntries limit i) := by
  -- on the entries that may still be read
  induction limit generalizing i with
  | zero => exact ⟨Nat.le_refl 0, fun _ _ found => (by cases found), fun room => (by cases room)⟩
  | succ limit ih =>
    unfold songEntries
    cases first : image.validEntryAt? i with
    | none =>
      refine ⟨Nat.zero_le _, fun _ _ found => (by cases found), ?_⟩
      intro _ e listed
      have listed : image.Lists i e := listed
      rw [validEntryAt?_eq_some_iff.mpr listed] at first
      cases first
    | some e =>
      have rest := ih (i + entrySize)
      refine ⟨Nat.succ_le_succ rest.length_le, ?_, ?_⟩
      · intro k e' found
        cases k with
        | zero =>
          cases found
          exact validEntryAt?_eq_some_iff.mp first
        | succ k => exact entryPlace_succ i k ▸ rest.lists k e' found
      · intro room
        exact entryPlace_succ i _ ▸ rest.ends (Nat.lt_of_succ_lt_succ room)

/-- The row behind the first entry of a run. -/
theorem LongestRun.tail (run : image.LongestRun (limit + 1) i (e :: entries)) :
    image.LongestRun limit (i + entrySize) entries := by
  refine ⟨Nat.le_of_succ_le_succ run.length_le, ?_, ?_⟩
  · intro k e' found
    exact entryPlace_succ i k ▸ run.lists (k + 1) e' found
  · intro room
    exact entryPlace_succ i _ ▸ run.ends (Nat.succ_lt_succ room)

/-- The entries that are read are the longest run, and no others are. -/
theorem longestRun_iff :
    image.LongestRun limit i entries ↔ image.songEntries limit i = entries := by
  constructor
  -- a run is determined: where it ends there is no entry, and elsewhere the one that is listed
  · intro run
    induction limit generalizing i entries with
    | zero => exact (List.eq_nil_of_length_eq_zero (Nat.le_zero.mp run.length_le)).symm
    | succ limit ih =>
      unfold songEntries
      cases entries with
      | nil =>
        cases first : image.validEntryAt? i with
        | none => rfl
        | some e =>
          exact absurd (validEntryAt?_eq_some_iff.mp first) (run.ends (Nat.succ_pos limit) e)
      | cons e entries =>
        have first : image.Lists i e := run.lists 0 e rfl
        rw [validEntryAt?_eq_some_iff.mpr first]
        exact congrArg (e :: ·) (ih run.tail)
  · rintro rfl
    exact longestRun_songEntries image limit i

/-! ## Song headers

A header is a count of tracks, three bytes that only the driver needs, the address of the voice
group and one address for each track. -/

theorem pointers?_eq_some_iff {count : Nat} {l : List Nat} :
    image.pointers? count i = some l ↔
      l.length = count ∧ (∀ pointer ∈ l, pointer < 2 ^ 32) ∧
        Bytes.Holds image.bytes i (l.flatMap (Bytes.littleBytes 4)) := by
  have width : Bytes.span 4 = 2 ^ 32 := by decide
  induction count generalizing i l with
  | zero =>
    rw [pointers?]
    constructor
    · intro read
      cases read
      exact ⟨rfl, by simp, Bytes.holds_nil⟩
    · rintro ⟨none, -⟩
      rw [List.eq_nil_of_length_eq_zero none]
  | succ count ih =>
    simp only [pointers?, Option.bind_eq_bind, Option.bind_eq_some_iff, ih,
      Bytes.little?_eq_some_iff, width]
    constructor
    · rintro ⟨first, ⟨fits, held⟩, rest, ⟨length, others, row⟩, same⟩
      -- the first pointer and the others stand one behind the other
      cases same
      refine ⟨congrArg (· + 1) length, List.forall_mem_cons.mpr ⟨fits, others⟩, ?_⟩
      rw [List.flatMap_cons, Bytes.holds_append, Bytes.length_littleBytes]
      exact ⟨held, row⟩
    · rintro ⟨length, fits, row⟩
      obtain ⟨first, rest, rfl⟩ := List.exists_cons_of_length_eq_add_one length
      obtain ⟨fits, others⟩ := List.forall_mem_cons.mp fits
      rw [List.flatMap_cons, Bytes.holds_append, Bytes.length_littleBytes] at row
      exact ⟨first, ⟨fits, row.1⟩, rest, ⟨Nat.succ.inj length, others, row.2⟩, rfl⟩

theorem songHeader?_eq_some_iff : image.songHeader? i = some h ↔ image.Heads i h := by
  -- the voice group and the tracks are one row of pointers
  have pointers : image.pointers? (h.tracks.length + 1) (i + 4) =
      some (h.voiceGroup :: h.tracks) ↔ _ := pointers?_eq_some_iff
  unfold songHeader?
  constructor
  · intro read
    simp only [Option.bind_eq_bind, Option.bind_eq_some_iff] at read
    obtain ⟨count, hcount, voiceGroup, hgroup, tracks, htracks, same⟩ := read
    cases same
    -- the count in the header is the number of tracks that were read
    have length := (pointers?_eq_some_iff.mp htracks).1
    rw [← length] at htracks
    obtain ⟨-, fits, held⟩ := pointers.mp (by simp [pointers?, hgroup, htracks])
    exact ⟨by simp [hcount, length], fits, held⟩
  · rintro ⟨count, fits, held⟩
    obtain ⟨byte, hbyte, length⟩ := Option.map_eq_some_iff.mp count
    have read := pointers.mpr ⟨rfl, fits, held⟩
    simp only [pointers?, Option.bind_eq_bind, Option.bind_eq_some_iff] at read
    obtain ⟨first, hfirst, rest, hrest, same⟩ := read
    cases same
    simp [hbyte, hfirst, length, hrest]

end Image

/-- One reading after the other comes to something if both do. -/
theorem bind_eq_ok_iff {ε α β : Type} {m : Except ε α} {next : α → Except ε β} {b : β} :
    m >>= next = .ok b ↔ ∃ a, m = .ok a ∧ next a = .ok b := by
  constructor
  · intro h
    cases m with
    | error e => cases h
    | ok a => exact ⟨a, rfl, h⟩
  · rintro ⟨a, rfl, h⟩
    exact h

namespace Cartridge

variable {image : Image} {table index : Nat} {c : Cartridge} {song : Song}

/-! ## What is read

Table and songs together. Both directions are stated: what a successful reading gives, and when a
reading is successful. -/

/-- A table can be read exactly if its address stands for an offset, and its songs are the longest
run of entries there, which has at least one. -/
theorem insert_eq_ok_iff :
    insert image table = .ok c ↔
      c.image = image ∧ image.Resolves table c.tableOffset ∧ c.entries ≠ #[] ∧
        image.LongestRun Image.maxSongs c.tableOffset c.entries.toList := by
  rw [← Image.userOffset_eq_ok_iff, Image.longestRun_iff, ne_eq, ← Array.toList_eq_nil_iff,
    insert, bind_eq_ok_iff]
  constructor
  · rintro ⟨offset, found, inserted⟩
    split at inserted
    · cases inserted
    · next nonempty =>
      cases inserted
      exact ⟨rfl, found, nonempty, rfl⟩
  · rintro ⟨rfl, found, nonempty, run⟩
    refine ⟨c.tableOffset, found, ?_⟩
    rw [run]
    split
    · next none => exact absurd none nonempty
    · rfl

theorem trackSource_eq_ok_iff {pointer : Nat} {source : TrackSource} :
    c.trackSource pointer = .ok source ↔
      c.image.Points pointer source.start ∧
        source.stream = ⟨c.image.bytes, UInt32.ofNat Image.busAddress⟩ := by
  rw [trackSource, bind_eq_ok_iff]
  constructor
  · rintro ⟨start, found, same⟩
    cases same
    exact ⟨Image.offset_eq_ok_iff.mp found, rfl⟩
  · rintro ⟨points, same⟩
    refine ⟨source.start, Image.offset_eq_ok_iff.mpr points, ?_⟩
    rw [← same]
    rfl

/-- The tracks of a song can be read exactly if all its pointers lead into the image. -/
theorem trackSources_eq_ok_iff {pointers : List Nat} {sources : List TrackSource} :
    pointers.mapM c.trackSource = .ok sources ↔
      pointers = sources.map (fun source => Image.busAddress + source.start) ∧
        ∀ source ∈ sources, c.image.Reaches source.start ∧
          source.stream = ⟨c.image.bytes, UInt32.ofNat Image.busAddress⟩ := by
  induction pointers generalizing sources with
  | nil =>
    rw [List.mapM_nil]
    constructor
    · intro h
      cases h
      simp
    · rintro ⟨none, -⟩
      rw [List.map_eq_nil_iff.mp none.symm]
      rfl
  | cons pointer pointers ih =>
    simp only [List.mapM_cons, bind_eq_ok_iff, trackSource_eq_ok_iff, ih]
    constructor
    -- one pointer that does not resolve fails them all
    · rintro ⟨first, ⟨⟨rfl, reached⟩, same⟩, rest, ⟨rfl, others⟩, h⟩
      cases h
      exact ⟨rfl, List.forall_mem_cons.mpr ⟨⟨reached, same⟩, others⟩⟩
    · rintro ⟨whole, all⟩
      obtain ⟨first, rest, rfl, h₁, h₂⟩ := List.map_eq_cons_iff.mp whole.symm
      obtain ⟨⟨reached, same⟩, others⟩ := List.forall_mem_cons.mp all
      exact ⟨first, ⟨⟨h₁.symm, reached⟩, same⟩, rest, ⟨h₂.symm, others⟩, rfl⟩

/-- The header `h` of song `index` is inside the image, and the song is what it says: its bank is
the voice group that the header names, and its tracks share the image and start where the pointers
of the header lead, one behind the other. -/
structure Presents (c : Cartridge) (index : Nat) (h : SongHeader) (song : Song) : Prop where
  /-- The header is the one that the entry of the song points to. -/
  header : ∃ e i, c.entries[index]? = some e ∧ c.image.Points e.header i ∧ c.image.Heads i h
  bank : ∃ group, c.image.Points h.voiceGroup group ∧ song.bank = c.image.voiceGroup group
  /-- Each track begins where its pointer leads to. -/
  tracks : h.tracks = song.sources.map fun source => Image.busAddress + source.start
  /-- All tracks are streams of the whole image, and they begin inside of it. -/
  source : ∀ source ∈ song.sources, c.image.Reaches source.start ∧
    source.stream = ⟨c.image.bytes, UInt32.ofNat Image.busAddress⟩
  index_eq : song.index = index
  driver_eq : song.driver = .m4a
  tempo_eq : song.initialTempo = SoundDriver.m4a.profile.defaultTempo

theorem header_eq_ok_iff {h : SongHeader} :
    c.header index = .ok h ↔
      ∃ e i, c.entries[index]? = some e ∧ c.image.Points e.header i ∧ c.image.Heads i h := by
  unfold header
  cases c.entries[index]? with
  | none => simp
  | some e =>
    simp only [bind_eq_ok_iff, Image.offset_eq_ok_iff, Option.some.injEq]
    constructor
    · rintro ⟨i, points, found⟩
      split at found
      · next held =>
        cases found
        exact ⟨e, i, rfl, points, Image.songHeader?_eq_some_iff.mp held⟩
      · cases found
    · rintro ⟨_, i, rfl, points, heads⟩
      refine ⟨i, points, ?_⟩
      rw [Image.songHeader?_eq_some_iff.mpr heads]

theorem song_eq_ok_iff : c.song index = .ok song ↔ ∃ h, c.Presents index h song := by
  simp only [Cartridge.song, bind_eq_ok_iff, header_eq_ok_iff, Image.offset_eq_ok_iff,
    trackSources_eq_ok_iff]
  constructor
  · rintro ⟨h, header, group, points, sources, ⟨tracks, all⟩, same⟩
    cases same
    exact ⟨h, header, ⟨group, points, rfl⟩, tracks, all, rfl, rfl, rfl⟩
  · rintro ⟨h, p⟩
    obtain ⟨group, points, bank⟩ := p.bank
    refine ⟨h, p.header, group, points, song.sources, ⟨p.tracks, p.source⟩, ?_⟩
    obtain ⟨_, _, _, _, _⟩ := song
    cases p.index_eq
    cases p.driver_eq
    cases p.tempo_eq
    cases bank
    rfl

end Cartridge
end Chiptune
