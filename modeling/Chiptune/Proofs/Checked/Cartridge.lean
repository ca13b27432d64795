import Chiptune.Cartridge
import Chiptune.Proofs.Cartridge.SongTable
import Chiptune.Proofs.Checked.VoiceGroup

/-!
# A cartridge in words

The entries of a song table follow each other, and there are at most 2048 of them, so the place of
the last one is as far from the end of a word as that of the first. The tracks of a song begin where
the bus maps their pointers to.

`Cartridge.checkedInsert_eq` and `Cartridge.checkedSong_eq` are the statements for a song table and
for a song: nothing that an image holds makes a loader trap. With what is known of the plain
calculations, this says what is read of any image (`Cartridge.reads_what_image_holds`).
-/

namespace Chiptune

open Checked

/-! ## Calculations

The walk through the table and the look at the bus addresses of the tracks are written once more,
with their places added up in words of 64 bits. What they read, and in which order, is the same. -/

namespace Image

def checkedSongEntries (image : Image) : (limit i : Nat) → Checked (List SongEntry)
  | 0, _ => return []
  | limit + 1, i =>
    match image.validEntryAt? i with
    | some e => do
      let next ← word 64 (i + entrySize)
      return e :: (← image.checkedSongEntries limit next)
    | none => return []

end Image

namespace Cartridge

def checkedInsert (image : Image) (table : Nat) : Checked (Except CartridgeError Cartridge) :=
  match image.userOffset table with
  | .error error => return .error error
  | .ok tableOffset => do
    match ← image.checkedSongEntries Image.maxSongs tableOffset with
    | [] => return .error .emptySongTable
    | entries => return .ok { image, tableOffset, entries := entries.toArray }

def checkedTrackSource (c : Cartridge) (pointer : Nat) :
    Checked (Except CartridgeError TrackSource) :=
  match c.image.offset pointer with
  | .error error => return .error error
  | .ok start => do
    let start ← word 32 start
    let stream := { bytes := c.image.bytes, base := UInt32.ofNat Image.busAddress }
    return .ok { stream, start }

/-- The tracks at some bus addresses, up to the first one that is outside. -/
def checkedTrackSources (c : Cartridge) :
    List Nat → Checked (Except CartridgeError (List TrackSource))
  | [] => return .ok []
  | pointer :: pointers => do
    match ← c.checkedTrackSource pointer with
    | .error error => return .error error
    | .ok source => return (← c.checkedTrackSources pointers).map (source :: ·)

def checkedSong (c : Cartridge) (index : Nat) : Checked (Except CartridgeError Song) :=
  match c.header index with
  | .error error => return .error error
  | .ok header =>
    match c.image.offset header.voiceGroup with
    | .error error => return .error error
    | .ok group => do
      let bank ← c.image.checkedVoiceGroup group
      let sources ← c.checkedTrackSources header.tracks
      return sources.map fun sources => { index, driver := .m4a, sources, bank }

end Cartridge

/-! ## Song tables and songs

A table is read for 2048 entries at most, and a bus address leads to a place below 32 MiB. So all of
these sums come out, and the calculations in words are equal to the plain ones, with no counter and
no excuse left. -/

namespace Image

variable {image : Image} {i limit : Nat}

theorem checkedSongEntries_eq (near : i + limit * entrySize < 2 ^ 64) :
    image.checkedSongEntries limit i = .ok (image.songEntries limit i) := by
  induction limit generalizing i with
  | zero => rfl
  | succ limit ih =>
    rw [Nat.succ_mul] at near
    rw [checkedSongEntries, songEntries]
    cases image.validEntryAt? i with
    | none => rfl
    | some e =>
      dsimp only
      rw [word_eq (by omega), ok_bind, ih (by omega)]
      rfl

end Image

namespace Cartridge

open Image

/-- Whatever an image holds, to look for its song table never traps. -/
theorem checkedInsert_eq (image : Image) (table : Nat) :
    checkedInsert image table = .ok (insert image table) := by
  unfold checkedInsert
  cases found : image.userOffset table with
  | error error =>
    rw [insert, found]
    rfl
  | ok offset =>
    -- an offset that resolves lies inside the image, and images are small
    have near : offset < 2 ^ 25 := by
      rcases userOffset_eq_ok_iff.mp found with ⟨reached, rfl⟩ | ⟨-, -, reached⟩
      · exact reached.1
      · exact reached.1
    have last : offset + maxSongs * entrySize < 2 ^ 64 := by unfold maxSongs entrySize; omega
    have plain : insert image table =
        match image.songEntries maxSongs offset with
        | [] => .error .emptySongTable
        | entries => .ok { image, tableOffset := offset, entries := entries.toArray } := by
      rw [insert, found]
      rfl
    dsimp only
    rw [checkedSongEntries_eq last, ok_bind, plain]
    cases image.songEntries maxSongs offset <;> rfl

theorem checkedTrackSource_eq (c : Cartridge) (pointer : Nat) :
    c.checkedTrackSource pointer = .ok (c.trackSource pointer) := by
  unfold checkedTrackSource trackSource
  cases found : c.image.offset pointer with
  | error error => rfl
  | ok start =>
    have near : start < 2 ^ 25 := (offset_eq_ok_iff.mp found).2.1
    dsimp only
    rw [word_eq (by omega)]
    rfl

theorem checkedTrackSources_eq (c : Cartridge) (pointers : List Nat) :
    c.checkedTrackSources pointers = .ok (pointers.mapM c.trackSource) := by
  induction pointers with
  | nil => rfl
  | cons pointer pointers ih =>
    rw [checkedTrackSources, checkedTrackSource_eq, ok_bind, List.mapM_cons, ih]
    cases c.trackSource pointer with
    | error error => rfl
    | ok source => cases pointers.mapM c.trackSource <;> rfl

/-- Whatever an image holds, to load a song never traps. -/
theorem checkedSong_eq (c : Cartridge) (index : Nat) :
    c.checkedSong index = .ok (c.song index) := by
  unfold checkedSong
  cases header : c.header index with
  | error error =>
    rw [Cartridge.song, header]
    rfl
  | ok h =>
    dsimp only
    cases found : c.image.offset h.voiceGroup with
    | error error =>
      have plain : c.song index = .error error := by
        rw [Cartridge.song, header]
        show c.image.offset h.voiceGroup >>= _ = _
        rw [found]
        rfl
      rw [plain]
      rfl
    | ok group =>
      -- the voice group lies inside the image, as all that resolves
      have near : group < 2 ^ 25 := (offset_eq_ok_iff.mp found).2.1
      have plain : c.song index =
          (h.tracks.mapM c.trackSource).map fun sources =>
            { index, driver := .m4a, sources, bank := c.image.voiceGroup group } := by
        rw [Cartridge.song, header]
        show c.image.offset h.voiceGroup >>= _ = _
        rw [found]
        show h.tracks.mapM c.trackSource >>= _ = _
        cases h.tracks.mapM c.trackSource <;> rfl
      dsimp only
      rw [checkedVoiceGroup_eq near, ok_bind, checkedTrackSources_eq, ok_bind, plain]
      rfl

/-- A cartridge is read for what its image holds, whatever that is. It has a song table exactly if
the address of the table stands for an offset at which the image lists an entry, and then its songs
are the longest run of entries there, cut at the limit. Each of its songs is refused with an error,
or it is what the header in the image says: a track for each of its pointers, in the shared image
and at the offset that the pointer leads to. Nothing of this ever traps. -/
theorem reads_what_image_holds (image : Image) (table : Nat) :
    ((∃ c, insert image table = .ok c) ↔
      ∃ offset e, image.Resolves table offset ∧ image.Lists offset e) ∧
    checkedInsert image table = .ok (insert image table) ∧
    ∀ c, insert image table = .ok c →
      c.image = image ∧ image.Resolves table c.tableOffset ∧
      image.LongestRun Image.maxSongs c.tableOffset c.entries.toList ∧
      ∀ index,
        ((∃ error, c.song index = .error error) ∨
          ∃ h song, c.song index = .ok song ∧ c.Presents index h song) ∧
        c.checkedSong index = .ok (c.song index) := by
  refine ⟨⟨?_, ?_⟩, checkedInsert_eq image table, ?_⟩
  -- a cartridge that was read lists at least one song
  · rintro ⟨c, inserted⟩
    obtain ⟨-, found, nonempty, run⟩ := insert_eq_ok_iff.mp inserted
    obtain ⟨e, first⟩ : ∃ e, c.entries.toList[0]? = some e := by
      cases entries : c.entries.toList with
      | nil => exact absurd (Array.toList_eq_nil_iff.mp entries) nonempty
      | cons e _ => exact ⟨e, rfl⟩
    exact ⟨c.tableOffset, e, found, run.lists 0 e first⟩
  -- and where one is listed, the longest run is not empty
  · rintro ⟨offset, e, found, listed⟩
    have run := image.longestRun_songEntries Image.maxSongs offset
    have nonempty : image.songEntries Image.maxSongs offset ≠ [] := by
      intro none
      rw [none] at run
      exact run.ends (by decide) e listed
    refine ⟨⟨image, offset, (image.songEntries Image.maxSongs offset).toArray⟩, ?_⟩
    exact insert_eq_ok_iff.mpr ⟨rfl, found, by simpa using nonempty, run⟩
  · intro c inserted
    obtain ⟨same, found, -, run⟩ := insert_eq_ok_iff.mp inserted
    refine ⟨same, found, run, ?_⟩
    intro index
    refine ⟨?_, checkedSong_eq c index⟩
    cases loaded : c.song index with
    | error error => exact Or.inl ⟨error, rfl⟩
    | ok song =>
      obtain ⟨h, presents⟩ := song_eq_ok_iff.mp loaded
      exact Or.inr ⟨h, song, rfl, presents⟩

/-- An image with a song table of one entry, at its start, and with the header of a song of one
track behind it. Nothing follows but the only byte of the track. -/
def oneSong : Image where
  bytes := ⟨#[0x08, 0, 0, 0x08, 0, 0, 0, 0,
    1, 0, 0, 0, 0x14, 0, 0, 0x08, 0x14, 0, 0, 0x08,
    0xB1]⟩

theorem reads_what_image_holds_oneSong :
    ∃ c, insert oneSong 0x08000000 = .ok c ∧ c.entries = #[⟨0x08000008, 0, 0⟩] ∧
      oneSong.LongestRun Image.maxSongs 0 [⟨0x08000008, 0, 0⟩] ∧
      ∃ h song, c.song 0 = .ok song ∧ c.Presents 0 h song ∧
        song.sources.map TrackSource.start = [20] := by
  have table : (insert oneSong 0x08000000).toOption.map
      (fun c => (c.tableOffset, c.entries)) = some (0, #[⟨0x08000008, 0, 0⟩]) := by
    decide +kernel
  have loads : ((insert oneSong 0x08000000).toOption.map fun c =>
      (c.song 0).toOption.map fun song => song.sources.map TrackSource.start) =
        some (some [20]) := by
    decide +kernel
  -- the general statement tells what the single song presents
  obtain ⟨-, -, reads⟩ := reads_what_image_holds oneSong 0x08000000
  cases inserted : insert oneSong 0x08000000 with
  | error error =>
    rw [inserted] at table
    cases table
  | ok c =>
    rw [inserted] at table loads
    obtain ⟨place, entries⟩ : c.tableOffset = 0 ∧ c.entries = #[⟨0x08000008, 0, 0⟩] := by
      simpa [Except.toOption] using table
    obtain ⟨-, -, run, song⟩ := reads c inserted
    rw [place, entries] at run
    refine ⟨c, rfl, entries, run, ?_⟩
    rcases (song 0).1 with ⟨error, refused⟩ | ⟨h, song, loaded, presents⟩
    · simp [Except.toOption, refused] at loads
    · refine ⟨h, song, loaded, presents, ?_⟩
      simpa [Except.toOption, loaded] using loads

end Cartridge
end Chiptune
