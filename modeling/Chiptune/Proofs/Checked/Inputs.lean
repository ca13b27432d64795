import Chiptune.Sequencer.Basic
import Mathlib.Algebra.Group.Nat.Defs

/-!
# Inputs that fit

A song and the choices of a host come with numbers that were read from words of a known size. Here
is what can be said of them before anything is played. Streams are shorter than 2^32 bytes, so that
every place in them fits 32 bits. Of the numbers inside a stream nothing is asked: the stream may be
any bytes.

The lengths of recordings are another matter. A recording from a cartridge image has a length that
was read from a word of 32 bits, but a host may put together a song with longer ones, as long as
there are addresses for the levels. That a bank is short (`Bank.Short`) is a restriction, and what
is sounded in words depends on it: the place in a wave of more than 2^32 levels may not fit its
word.
-/

namespace Chiptune

/-- The rate of a recording is read from a word of 32 bits. Its levels have addresses, of which a
program has 2^47. -/
structure Sample.Fits (s : Sample) : Prop where
  size_le : s.size ≤ 2 ^ 47
  rate_lt : s.rate < 2 ^ 32

structure Instrument.Fits (i : Instrument) : Prop where
  rootKey_lt : i.rootKey < 2 ^ 8
  fixedKey_lt : ∀ key, i.fixedKey = some key → key < 2 ^ 8

/-- All samples fit, and all instruments that a program can choose. -/
structure Bank.Fits (b : Bank) : Prop where
  sample : ∀ {i s}, b.sample? i = some s → s.Fits
  instrument : ∀ {id p key i}, b.program? id = some p → p.instrumentFor key = some i → i.Fits

/-- No recording has more levels than the phase of a wave can tell apart. -/
def Bank.Short (b : Bank) : Prop := ∀ i s, b.sample? i = some s → s.size ≤ 2 ^ 32

structure TrackSource.Fits (source : TrackSource) : Prop where
  size_lt : source.stream.bytes.size < 2 ^ 32
  start_lt : source.start < 2 ^ 32

structure Song.Fits (song : Song) : Prop where
  initialTempo_lt : song.initialTempo < 2 ^ 16
  bank : song.bank.Fits
  source : ∀ source ∈ song.sources, source.Fits

/-- The limit of commands leaves room to count one command more. -/
structure Config.Fits (c : Config) : Prop where
  sampleRate_lt : c.sampleRate < 2 ^ 32
  commandLimit_lt : c.commandLimit < 2 ^ 32 - 1

theorem Bank.fits_empty : Bank.Fits {} where
  sample h := by simp [Bank.sample?] at h
  instrument h := by simp [Bank.program?] at h

theorem Bank.short_of_no_samples {b : Bank} (none : b.samples = #[]) : b.Short := by
  intro i s found
  simp [Bank.sample?, none] at found

end Chiptune
