/-!
# Texts

What a player writes for a reader, and what it reads of a text. Numbers stand in columns or in base
sixteen. A label is a name that is short enough to keep. A text is taken apart into its lines
whatever ends them, and what comes from outside is shown without the characters that a terminal
would obey.
-/

namespace Chiptune.Text

/-! ### Numbers

A number that is wider than its column is written in full. Messages name offsets, opcodes and
addresses as `0x` followed by lower-case digits, and some of them keep a least number of digits, so
that bytes and bus addresses line up. -/

/-- The decimal digits of `n`, with blanks in front up to `width` characters. -/
def rightAligned (width n : Nat) : String :=
  let digits := Nat.toDigits 10 n
  String.ofList (List.replicate (width - digits.length) ' ' ++ digits)

/-- The lower-case base-16 digits of `n`, without leading zeros. -/
def hexDigits (n : Nat) : List Char := Nat.toDigits 16 n

/-- `0x` and the base-16 digits of `n`, padded with zeros to at least `width` digits. -/
def hexPadded (width n : Nat) : String :=
  let digits := hexDigits n
  "0x" ++ String.ofList (List.replicate (width - digits.length) '0' ++ digits)

/-- `0x` and the base-16 digits of `n`. -/
def hex (n : Nat) : String := hexPadded 0 n

/-! ### Labels

Samples and instruments carry a short name. A name that is too long is not cut but dropped, so a
label is always either the whole name or empty. -/

/-- The most bytes that a label takes, in UTF-8. -/
def labelCapacity : Nat := 24

/-- The label for a name: the name itself if it fits, else nothing. -/
def label (name : String) : String := if name.utf8ByteSize ≤ labelCapacity then name else ""

theorem utf8ByteSize_label_le (name : String) : (label name).utf8ByteSize ≤ labelCapacity := by
  unfold label
  split
  · assumption
  · simp [labelCapacity]

/-! ### Lines

A line ends at a line feed. One carriage return right in front of the line feed belongs to the
ending, so texts with either ending have the same lines. What stands behind the last line feed is
a line only if it is not empty. -/

/-- A line without its ending, both of them backwards. -/
def dropReturn : List Char → List Char
  | '\r' :: line => line
  | line => line

/-- The lines of a text, where `line` is the beginning of the first one, backwards. -/
def linesFrom : (line : List Char) → List Char → List (List Char)
  | [], [] => []
  | line, [] => [line.reverse]
  | line, c :: rest =>
    if c = '\n' then (dropReturn line).reverse :: linesFrom [] rest else linesFrom (c :: line) rest

/-- The first line ends at the first line feed. -/
theorem linesFrom_append (line rest : List Char) :
    ∀ text : List Char, '\n' ∉ text →
      linesFrom line (text ++ '\n' :: rest) =
        (dropReturn (text.reverse ++ line)).reverse :: linesFrom [] rest
  | [], _ => by simp [linesFrom]
  | c :: text, h => by
    have first : c ≠ '\n' := fun e => h (by simp [e])
    rw [List.cons_append, linesFrom, if_neg first,
      linesFrom_append (c :: line) rest text fun m => h (List.mem_cons_of_mem c m)]
    simp

def lines (text : String) : List String := (linesFrom [] text.toList).map String.ofList

/-! ### Characters that drive a terminal

A report can repeat text from outside, such as the path of a file. Characters that a terminal
would obey rather than show are written as escapes, so a report never moves the cursor, changes a
colour or rings the bell. Tabs and line ends stay as they are. -/

/-- The escaped characters below 128: bell, backspace, form feed, escape and delete. -/
def DrivesTerminal (code : Nat) : Prop :=
  code ∈ [0x07, 0x08, 0x0c, 0x1b, 0x7f]

instance (code : Nat) : Decidable (DrivesTerminal code) := inferInstanceAs (Decidable (_ ∈ _))

/-- The second block of control characters, which some terminals obey as well. -/
def IsHighControl (code : Nat) : Prop := 0x80 ≤ code ∧ code ≤ 0x9f

instance (code : Nat) : Decidable (IsHighControl code) :=
  inferInstanceAs (Decidable (_ ∧ _))

/-- What is written for the character `c`. -/
def visibleChar (c : Char) : List Char :=
  if DrivesTerminal c.toNat then
    let digits := hexDigits c.toNat
    '\\' :: 'x' :: (List.replicate (2 - digits.length) '0' ++ digits)
  else if IsHighControl c.toNat then '\\' :: 'u' :: '\x7b' :: (hexDigits c.toNat ++ ['\x7d'])
  else [c]

/-- A text with all characters that drive a terminal written as escapes. -/
def visible (text : String) : String := String.ofList (text.toList.flatMap visibleChar)

/-- The escapes themselves hold nothing that drives a terminal. -/
theorem visibleChar_shown (c : Char) :
    ∀ d ∈ visibleChar c, ¬DrivesTerminal d.toNat ∧ ¬IsHighControl d.toNat := by
  have escapes : ∀ n ∈ [0x07, 0x08, 0x0c, 0x1b, 0x7f] ++ (List.range 32).map (0x80 + ·),
      (visibleChar (Char.ofNat n)).all
        (fun d => ¬DrivesTerminal d.toNat ∧ ¬IsHighControl d.toNat) = true := by
    decide +kernel
  by_cases drives : DrivesTerminal c.toNat
  · simpa using escapes c.toNat (List.mem_append_left _ drives)
  · by_cases high : IsHighControl c.toNat
    · have place : c.toNat ∈ (List.range 32).map (0x80 + ·) := by
        refine List.mem_map.mpr ⟨c.toNat - 0x80, List.mem_range.mpr ?_, ?_⟩ <;>
          · obtain ⟨lower, upper⟩ := high
            omega
      simpa using escapes c.toNat (List.mem_append_right _ place)
    · intro d m
      rw [visibleChar, if_neg drives, if_neg high, List.mem_singleton] at m
      exact m ▸ ⟨drives, high⟩

end Chiptune.Text
