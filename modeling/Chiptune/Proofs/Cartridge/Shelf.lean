import Chiptune.Cartridge.VoiceGroup
import Mathlib.Data.Option.Basic

/-!
# What the sample shelf holds

Reading a voice group carries a shelf of samples along. This file describes the shelf by the entries
that were read (`Image.shelve`) and no longer by the loops that read them. An address names the
sample that the first of these entries found there (`sample?_shelve`), and once it names one it
never names another (`place?_shelve`), so the instrument that an entry was given is the one that it
would be given again by the finished shelf (`instrumentAt_shelve`).
-/

namespace Chiptune

/-! ## The view of a shelf

A shelf keeps addresses and samples side by side. What later proofs see of it is which place an
address has and which sample is there. -/

namespace SampleShelf

variable {shelf : SampleShelf} {a b place : Nat} {read : Nat → Option Sample}

/-- Each address has its sample. -/
def Aligned (shelf : SampleShelf) : Prop := shelf.addresses.size = shelf.samples.size

/-- The sample that an address names. -/
def sample? (shelf : SampleShelf) (address : Nat) : Option Sample :=
  (shelf.place? address).bind (shelf.samples[·]?)

@[simp] theorem aligned_empty : Aligned {} := rfl

@[simp] theorem place?_empty : place? {} a = none := by simp [place?]

@[simp] theorem sample?_empty : sample? {} a = none := by simp [sample?]

/-- A place that the shelf tells is a place on it. -/
theorem Aligned.place_lt (h : shelf.Aligned) (found : shelf.place? a = some place) :
    place < shelf.samples.size := by
  obtain ⟨inside, -⟩ := Array.findIdx?_eq_some_iff_getElem.mp found
  exact h ▸ inside

/-- An address names a sample as soon as it has a place. -/
theorem Aligned.isSome_sample? (h : shelf.Aligned) :
    (shelf.sample? a).isSome = (shelf.place? a).isSome := by
  unfold sample?
  cases found : shelf.place? a with
  | none => rfl
  | some place => simp [h.place_lt found]

/-- A sample is put on the shelf together with its address. -/
theorem Aligned.add (h : shelf.Aligned) (s : Sample) : (shelf.add a s).Aligned := by
  have sizes : shelf.addresses.size = shelf.samples.size := h
  simp [Aligned, SampleShelf.add, sizes]

/-- A new sample gets the next place, unless its address already has one. -/
theorem place?_add (s : Sample) :
    (shelf.add a s).place? b =
      (shelf.place? b).or (if a = b then some shelf.addresses.size else none) := by
  simp [SampleShelf.add, place?, Array.findIdx?_push]

/-- A sample that was put under a new address is found there. -/
theorem Aligned.sample?_add (h : shelf.Aligned) (new : shelf.place? a = none) (s : Sample) :
    (shelf.add a s).sample? b = if a = b then some s else shelf.sample? b := by
  have sizes : shelf.addresses.size = shelf.samples.size := h
  unfold sample?
  rw [place?_add]
  split
  · next e =>
    subst e
    simp [new, SampleShelf.add, sizes]
  · cases found : shelf.place? b with
    | none => rfl
    | some place =>
      have inside := h.place_lt found
      simp [SampleShelf.add, Array.getElem?_push, Nat.ne_of_lt inside]

/-! ## Fetching

To fetch a sample looks its address up first, and reads only if it is not there. An address keeps
its place for ever, which is why a place can be handed out. -/

/-- To fetch a sample keeps addresses and samples side by side. -/
theorem Aligned.fetch (h : shelf.Aligned) : (shelf.fetch a read).2.Aligned := by
  unfold SampleShelf.fetch
  split
  · exact h
  · split
    · exact h.add _
    · exact h

/-- A place that was given to an address stays its place. -/
theorem place?_fetch (found : shelf.place? b = some place) :
    (shelf.fetch a read).2.place? b = some place := by
  unfold SampleShelf.fetch
  split
  · exact found
  · split
    · rw [place?_add, found, Option.some_or]
    · exact found

/-- Fetching answers with the place that the address has afterwards. -/
theorem Aligned.fetch_fst (h : shelf.Aligned) :
    (shelf.fetch a read).1 = (shelf.fetch a read).2.place? a := by
  have sizes : shelf.addresses.size = shelf.samples.size := h
  unfold SampleShelf.fetch
  split
  · next found => exact found.symm
  · next missing =>
    split
    · simp [place?_add, missing, sizes]
    · exact missing.symm

/-- Fetching puts what it read on the shelf, unless the address names a sample already. -/
theorem Aligned.sample?_fetch (h : shelf.Aligned) :
    (shelf.fetch a read).2.sample? b =
      (shelf.sample? b).or (if a = b then read a else none) := by
  unfold SampleShelf.fetch
  split
  -- the address is known, and nothing is read
  · next place found =>
    split
    · next e =>
      subst e
      have inside := h.place_lt found
      have named : shelf.sample? a = some shelf.samples[place] := by simp [sample?, found, inside]
      rw [named, Option.some_or]
    · rw [Option.or_none]
  -- it is new: either there is a sample to put on the shelf, or nothing changes
  · next missing =>
    have unnamed : shelf.sample? a = none := by simp [sample?, missing]
    split
    · next s readable =>
      rw [h.sample?_add missing, readable]
      split
      · next e => rw [← e, unnamed, Option.none_or]
      · rw [Option.or_none]
    · next unreadable =>
      rw [unreadable]
      simp

end SampleShelf

/-! ## Reading one entry

An entry fetches at most one sample, from the address that it names. How the sample is read depends
on the kind of the entry (`ownSample?`), but the shelf asks only for the address. -/

namespace VoiceEntry

/-- An entry of a program that stands for a whole group. -/
def StandsForGroup (e : VoiceEntry) : Prop :=
  e.kind &&& (Image.keySplitKind ||| Image.drumkitKind) ≠ 0

instance (e : VoiceEntry) : Decidable e.StandsForGroup := inferInstanceAs (Decidable (_ ≠ _))

/-- The instrument of an entry whose sample, if it takes one, has the given place. -/
def instrumentAt (e : VoiceEntry) (place : Option Nat) : Option Instrument :=
  if e.StandsForGroup then none
  else
    match e.kind.toNat % 8 with
    | 0 => place.map (Image.recordedInstrument e)
    | 1 => some (Image.toneInstrument "square1" (.square (Duty.ofBits e.data)) .square1 e.adsr)
    | 2 => some (Image.toneInstrument "square2" (.square (Duty.ofBits e.data)) .square2 e.adsr)
    | 3 => place.map fun sample => Image.toneInstrument "wave" (.wave sample) .wave e.adsr
    | 4 =>
      let mode := if e.data % 2 = 1 then NoiseMode.short else NoiseMode.long
      some (Image.toneInstrument "noise" (.noise mode) .noise e.adsr)
    | _ => none

/-- An entry takes its sample from the place, or it takes none. -/
theorem instrumentAt_cases (e : VoiceEntry) :
    (∃ f, ∀ place, e.instrumentAt place = place.map f) ∨
      ∃ i?, ∀ place, e.instrumentAt place = i? := by
  unfold instrumentAt
  by_cases stands : e.StandsForGroup
  · exact .inr ⟨none, fun _ => if_pos stands⟩
  · simp only [if_neg stands]
    generalize e.kind.toNat % 8 = form
    -- recording, square, square, wave, noise, and forms that nothing plays
    rcases form with _ | _ | _ | _ | _ | _
    · exact .inl ⟨_, fun _ => rfl⟩
    · exact .inr ⟨_, fun _ => rfl⟩
    · exact .inr ⟨_, fun _ => rfl⟩
    · exact .inl ⟨_, fun _ => rfl⟩
    · exact .inr ⟨_, fun _ => rfl⟩
    · exact .inr ⟨_, fun _ => rfl⟩

end VoiceEntry

namespace Image

variable {image : Image} {e : VoiceEntry} {shelf : SampleShelf} {a place : Nat} {i : Instrument}

/-- The sample that an entry names, read from its own address and from nothing else. -/
def ownSample? (image : Image) (e : VoiceEntry) : Option Sample :=
  if e.StandsForGroup then none
  else
    match e.kind.toNat % 8 with
    | 0 => image.recording? e.data
    | 3 => image.wave? e.data
    | _ => none

/-- The shelf after an entry was read: an entry that takes a sample fetches it, and any other entry
leaves the shelf as it is. -/
theorem instrument_cases (image : Image) (e : VoiceEntry) (shelf : SampleShelf) :
    (∃ read, image.ownSample? e = read e.data ∧
        (image.instrument e shelf).2 = (shelf.fetch e.data read).2 ∧
        (image.instrument e shelf).1 = e.instrumentAt (shelf.fetch e.data read).1) ∨
      (image.ownSample? e = none ∧ (image.instrument e shelf).2 = shelf ∧
        ∀ place, (image.instrument e shelf).1 = e.instrumentAt place) := by
  unfold instrument ownSample? VoiceEntry.instrumentAt
  by_cases stands : e.StandsForGroup
  · have flagged : e.kind &&& (keySplitKind ||| drumkitKind) ≠ 0 := stands
    simp [stands, flagged]
  · have plain : ¬ e.kind &&& (keySplitKind ||| drumkitKind) ≠ 0 := stands
    simp only [if_neg stands, if_neg plain]
    generalize e.kind.toNat % 8 = form
    -- recording, square, square, wave, noise, and forms that nothing plays
    rcases form with _ | _ | _ | _ | _ | _
    · exact .inl ⟨image.recording?, rfl, rfl, rfl⟩
    · exact .inr ⟨rfl, rfl, fun _ => rfl⟩
    · exact .inr ⟨rfl, rfl, fun _ => rfl⟩
    · exact .inl ⟨image.wave?, rfl, rfl, rfl⟩
    · exact .inr ⟨rfl, rfl, fun _ => rfl⟩
    · exact .inr ⟨rfl, rfl, fun _ => rfl⟩

/-- Reading an instrument keeps addresses and samples side by side. -/
theorem aligned_instrument (h : shelf.Aligned) : (image.instrument e shelf).2.Aligned := by
  obtain ⟨read, -, same, -⟩ | ⟨-, same, -⟩ := instrument_cases image e shelf
  · rw [same]; exact h.fetch
  · rw [same]; exact h

/-- Addresses keep their places when further instruments are read. -/
theorem place?_instrument (found : shelf.place? a = some place) :
    (image.instrument e shelf).2.place? a = some place := by
  obtain ⟨read, -, same, -⟩ | ⟨-, same, -⟩ := instrument_cases image e shelf
  · rw [same]; exact SampleShelf.place?_fetch found
  · rw [same]; exact found

/-- The instrument of an entry takes its sample from the place that its address has afterwards. -/
theorem instrument_fst (h : shelf.Aligned) :
    (image.instrument e shelf).1 =
      e.instrumentAt ((image.instrument e shelf).2.place? e.data) := by
  obtain ⟨read, -, same, voiced⟩ | ⟨-, -, voiced⟩ := instrument_cases image e shelf
  · rw [voiced, same, h.fetch_fst]
  · exact voiced _

/-- Reading an instrument puts its own sample under its address if none was there. -/
theorem sample?_instrument (h : shelf.Aligned) :
    (image.instrument e shelf).2.sample? a =
      (shelf.sample? a).or (if e.data = a then image.ownSample? e else none) := by
  obtain ⟨read, own, same, -⟩ | ⟨own, same, -⟩ := instrument_cases image e shelf
  · rw [same, own, h.sample?_fetch]
  · rw [same, own, ite_self, Option.or_none]

/-- An entry's own sample is what its address names when nothing else was read. -/
theorem ownSample?_eq (image : Image) (e : VoiceEntry) :
    image.ownSample? e = (image.instrument e {}).2.sample? e.data := by
  rw [sample?_instrument SampleShelf.aligned_empty, SampleShelf.sample?_empty, if_pos rfl,
    Option.none_or]

/-! ## Reading a row of entries

After any row of entries an address names what it named before, or else what the first entry of the
row with that address finds there. -/

variable {entries : List VoiceEntry}

/-- The shelf after some entries were read, one behind the other. -/
def shelve (image : Image) (entries : List VoiceEntry) (shelf : SampleShelf) : SampleShelf :=
  entries.foldl (fun shelf e => (image.instrument e shelf).2) shelf

@[simp] theorem shelve_nil : image.shelve [] shelf = shelf := rfl

@[simp] theorem shelve_cons :
    image.shelve (e :: entries) shelf = image.shelve entries (image.instrument e shelf).2 := rfl

@[simp] theorem shelve_append (later : List VoiceEntry) :
    image.shelve (entries ++ later) shelf = image.shelve later (image.shelve entries shelf) :=
  List.foldl_append

/-- Reading any number of instruments keeps addresses and samples side by side. -/
theorem aligned_shelve (h : shelf.Aligned) : (image.shelve entries shelf).Aligned := by
  induction entries generalizing shelf with
  | nil => exact h
  | cons e entries ih => exact ih (aligned_instrument h)

/-- An address keeps its place while further entries are read. -/
theorem place?_shelve (found : shelf.place? a = some place) :
    (image.shelve entries shelf).place? a = some place := by
  induction entries generalizing shelf with
  | nil => exact found
  | cons e entries ih => exact ih (place?_instrument found)

/-- An address names what the first of the entries with that address found there. -/
theorem sample?_shelve (h : shelf.Aligned) :
    (image.shelve entries shelf).sample? a =
      (shelf.sample? a).or
        ((entries.filter (·.data = a)).findSome? image.ownSample?) := by
  induction entries generalizing shelf with
  | nil => simp
  | cons e entries ih =>
    rw [shelve_cons, ih (aligned_instrument h), sample?_instrument h, Option.or_assoc]
    by_cases same : e.data = a
    · cases own : image.ownSample? e <;> simp [same, own]
    · simp [same]

/-! ## Instruments on a finished shelf

Nothing that is read later changes an instrument that was given before. -/

/-- An instrument that an entry was given is the one that all later shelves hold for it. -/
theorem instrumentAt_shelve (later : List VoiceEntry) (h : shelf.Aligned)
    (played : (image.instrument e shelf).1 = some i) :
    e.instrumentAt ((image.shelve (e :: later) shelf).place? e.data) = some i := by
  rw [instrument_fst h] at played
  rw [shelve_cons]
  obtain ⟨f, takes⟩ | ⟨r, same⟩ := e.instrumentAt_cases
  · -- the entry takes a sample, so its address has a place by now
    rw [takes] at played
    obtain ⟨place, found, -⟩ := Option.map_eq_some_iff.mp played
    rw [takes, place?_shelve found, ← found, played]
  · rw [same] at played ⊢
    exact played

/-- An entry that can be played alone can be played whatever was read before it. -/
theorem instrument_isSome_of_alone (h : shelf.Aligned)
    (alone : (image.instrument e {}).1.isSome) : (image.instrument e shelf).1.isSome := by
  obtain ⟨f, takes⟩ | ⟨r, same⟩ := e.instrumentAt_cases
  · rw [instrument_fst SampleShelf.aligned_empty, takes, Option.isSome_map] at alone
    rw [instrument_fst h, takes, Option.isSome_map]
    rw [← (aligned_instrument h).isSome_sample?, sample?_instrument h]
    rw [← (aligned_instrument SampleShelf.aligned_empty).isSome_sample?,
      sample?_instrument SampleShelf.aligned_empty] at alone
    simp_all
  · rw [instrument_fst SampleShelf.aligned_empty, same] at alone
    rw [instrument_fst h, same]
    exact alone

end Image
end Chiptune
