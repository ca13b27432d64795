import Mathlib.Algebra.Group.Int.Defs
import Mathlib.Algebra.Group.Nat.Defs

/-!
# Arithmetic in words

Everywhere else numbers are as large as they need to be. A player on a console or in an audio
callback keeps them in words of 8 to 64 bits, and it must never calculate a number that does not
fit its word, divide by zero or look behind the end of a table: that would end it on the spot.

A `Checked` calculation does all its arithmetic in words and stops at the first `Trap`. The other
modules of this directory repeat every calculation of a sequencer in this way, word for word, and
show that it gives the same result as the one in plain numbers.

Five counters grow for as long as a song is played, and nothing keeps them from filling their words
in the end. `Gives` therefore leaves one way out: the calculation gives the right result unless a
counter has run full. Where the result may be missing because a word is too small for it, `Answers`
says so of the calculation.
-/

namespace Chiptune

/-- The numbers that grow while a song plays, and that nothing bounds. -/
inductive Counter
  /-- Ticks since the start of the song. -/
  | tick
  /-- Voices that were given a slot. -/
  | serial
  /-- How often the whole song has gone round. -/
  | songLoops
  /-- How often one stream has gone back. -/
  | trackLoops
  /-- The last pause of a DSE stream, which the stream can lengthen again and again. -/
  | lastPause
  deriving DecidableEq, Repr

/-- The size of the word that holds a counter. -/
def Counter.bits : Counter → Nat
  | tick => 64
  | serial => 64
  | songLoops => 32
  | trackLoops => 32
  | lastPause => 32

/-- What ends a calculation. -/
inductive Trap
  /-- A result does not fit its word. -/
  | overflow
  | divisionByZero
  /-- A place behind the end of a table. -/
  | outOfBounds
  /-- A counter does not fit its word any more. -/
  | full (c : Counter)
  deriving DecidableEq, Repr

/-- A calculation in words. -/
abbrev Checked : Type → Type := Except Trap

namespace Checked

variable {α β : Type}

/-! ## Operations

One for each thing that a word can be asked to do. The name says which words: `word` and `signed`
take their size, `count` takes the counter that decides it. Tables are read and written behind a
check of the bounds, because a player would read them behind one. -/

/-- A result that has to fit a word without a sign. -/
def word (bits n : Nat) : Checked Nat := if n < 2 ^ bits then .ok n else .error .overflow

/-- A result that has to fit a word with a sign. -/
def signed (bits : Nat) (x : Int) : Checked Int :=
  if -2 ^ (bits - 1) ≤ x ∧ x < 2 ^ (bits - 1) then .ok x else .error .overflow

/-- The next value of a counter. -/
def count (c : Counter) (n : Nat) : Checked Nat :=
  if n < 2 ^ c.bits then .ok n else .error (.full c)

/-- The difference of two words without a sign. -/
def less (a b : Nat) : Checked Nat := if b ≤ a then .ok (a - b) else .error .overflow

def quotient (a b : Nat) : Checked Nat := if b = 0 then .error .divisionByZero else .ok (a / b)

def remainder (a b : Nat) : Checked Nat := if b = 0 then .error .divisionByZero else .ok (a % b)

/-- The number of places to shift a word by, which has to be less than its size. -/
def shift (bits n : Nat) : Checked Nat := if n < bits then .ok n else .error .overflow

/-- Read a table. -/
def entry (table : Array α) (i : Nat) : Checked α :=
  match table[i]? with
  | some a => .ok a
  | none => .error .outOfBounds

/-- Write to a table. -/
def store (table : Array α) (i : Nat) (a : α) : Checked (Array α) :=
  if i < table.size then .ok (table.setIfInBounds i a) else .error .outOfBounds

@[simp] theorem pure_eq (a : α) : (pure a : Checked α) = .ok a := rfl

@[simp] theorem ok_bind (a : α) (f : α → Checked β) : (.ok a : Checked α) >>= f = f a := rfl

/-! ## Where they do not trap

Each operation has one lemma that says when it gives what plain arithmetic gives. The side
conditions are linear, so that a caller can leave them to `omega` as soon as the bounds of its own
numbers are known. -/

theorem word_eq {bits n : Nat} (h : n < 2 ^ bits) : word bits n = .ok n := if_pos h

theorem word_overflow {bits n : Nat} (h : ¬ n < 2 ^ bits) : word bits n = .error .overflow :=
  if_neg h

/-- A word with a sign holds one number more below zero than above. -/
theorem signed_eq {bits : Nat} {x : Int} (low : -2 ^ (bits - 1) ≤ x) (high : x < 2 ^ (bits - 1)) :
    signed bits x = .ok x :=
  if_pos ⟨low, high⟩

theorem less_eq {a b : Nat} (h : b ≤ a) : less a b = .ok (a - b) := if_pos h

theorem quotient_eq {a b : Nat} (h : b ≠ 0) : quotient a b = .ok (a / b) := if_neg h

theorem remainder_eq {a b : Nat} (h : b ≠ 0) : remainder a b = .ok (a % b) := if_neg h

theorem shift_eq {bits n : Nat} (h : n < bits) : shift bits n = .ok n := if_pos h

theorem entry_eq {table : Array α} {i : Nat} {a : α} (h : table[i]? = some a) :
    entry table i = .ok a := by
  rw [entry, h]

/-- Within its bounds a table may be read with any default. -/
theorem entry_eq_getD {table : Array α} {i : Nat} (h : i < table.size) (default : α) :
    entry table i = .ok (table.getD i default) := by
  refine entry_eq ?_
  rw [Array.getD_eq_getD_getElem?, Array.getElem?_eq_getElem h, Option.getD_some]

theorem store_eq {table : Array α} {i : Nat} (h : i < table.size) (a : α) :
    store table i a = .ok (table.setIfInBounds i a) :=
  if_pos h

/-- What trap-free calculations give for the members of a list, they give for the list. -/
theorem mapM_eq {f : α → Checked β} {g : α → β} {l : List α} (h : ∀ a ∈ l, f a = .ok (g a)) :
    l.mapM f = .ok (l.map g) := by
  induction l with
  | nil => rfl
  | cons a l ih =>
    rw [List.mapM_cons, h a List.mem_cons_self, ih fun b hb => h b (List.mem_cons_of_mem a hb)]
    rfl

/-! ## Calculations with counters

A calculation that counts something cannot be equal to a plain one, because the counter may be full.
`Gives`, `Answers` and `GivesUnless` say what can be said instead. They compose along `>>=` and, for
`Gives`, along a list, so that a caller never looks at a counter that it does not count itself. -/

/-- The calculation gives `a`, unless a counter runs full on the way. -/
inductive Gives : Checked α → α → Prop
  | ok (a : α) : Gives (.ok a) a
  /-- Nothing is claimed of what a full counter leaves behind. -/
  | full (c : Counter) (a : α) : Gives (.error (.full c)) a

namespace Gives

variable {m : Checked α} {a : α} {b : β}

theorem of_eq (h : m = .ok a) : Gives m a := h ▸ .ok a

/-- Where it ends without a trap, the result is right. -/
theorem eq_ok (h : Gives m a) (ends : m.isOk = true) : m = .ok a := by
  cases h with
  | ok => rfl
  | full c => cases ends

/-- Counting fails only because this counter is full. -/
theorem count (c : Counter) (n : Nat) : Gives (Checked.count c n) n := by
  unfold Checked.count
  split
  · exact .ok n
  · exact .full c n

/-- One calculation after the other. -/
theorem bind {f : α → Checked β} (h : Gives m a) (next : Gives (f a) b) : Gives (m >>= f) b := by
  cases h with
  | ok => exact next
  | full c => exact .full c b

/-- The first counter that runs full ends the whole list, and no more is claimed of it. -/
theorem mapM {f : α → Checked β} {g : α → β} {l : List α} (h : ∀ a ∈ l, Gives (f a) (g a)) :
    Gives (l.mapM f) (l.map g) := by
  induction l with
  | nil => exact .ok []
  | cons a l ih =>
    rw [List.mapM_cons]
    refine (h a List.mem_cons_self).bind ?_
    exact (ih fun b hb => h b (List.mem_cons_of_mem a hb)).bind (.ok _)

end Gives

/-- The calculation gives what there is to give, and overflows where there is nothing, unless a
counter has run full on the way. -/
inductive Answers : Checked α → Option α → Prop
  | ok (a : α) : Answers (.ok a) (some a)
  | overflow : Answers (.error .overflow) none
  | full (c : Counter) (o : Option α) : Answers (.error (.full c)) o

namespace Answers

variable {m : Checked α} {o : Option α}

/-- Where there is something to give, the calculation gives it. -/
theorem gives {a : α} (h : Answers m (some a)) : Gives m a := by
  cases h with
  | ok => exact .ok a
  | full c => exact .full c a

/-- The next calculation matters only where the first one has an answer. -/
theorem bind {f : α → Checked β} {g : α → Option β} (h : Answers m o)
    (next : ∀ a, o = some a → Answers (f a) (g a)) : Answers (m >>= f) (o.bind g) := by
  cases h with
  | ok a => exact next a rfl
  | overflow => exact .overflow
  | full c => exact .full c _

end Answers

/-- A calculation that may have no answer, behind one that always has. -/
theorem Gives.bind_answers {m : Checked α} {a : α} {f : α → Checked β} {o : Option β}
    (h : Gives m a) (next : Answers (f a) o) : Answers (m >>= f) o := by
  cases h with
  | ok => exact next
  | full c => exact .full c o

/-- The calculation gives `a`, unless a counter runs full on the way, or it overflows and there is
an excuse for it. -/
inductive GivesUnless (excuse : Prop) : Checked α → α → Prop
  | gives {m : Checked α} {a : α} (h : Gives m a) : GivesUnless excuse m a
  /-- The overflow has its reason. -/
  | overflow (h : excuse) (a : α) : GivesUnless excuse (.error .overflow) a

namespace GivesUnless

variable {excuse : Prop} {m : Checked α} {a : α} {b : β}

/-- An excuse may be exchanged for a weaker one. -/
theorem mono {weaker : Prop} (h : GivesUnless excuse m a) (imp : excuse → weaker) :
    GivesUnless weaker m a := by
  cases h with
  | gives h => exact .gives h
  | overflow h => exact .overflow (imp h) a

/-- Only what was given is gone on with. -/
theorem bind {f : α → Checked β} (h : GivesUnless excuse m a) (next : GivesUnless excuse (f a) b) :
    GivesUnless excuse (m >>= f) b := by
  cases h with
  | gives h =>
    cases h with
    | ok => exact next
    | full c => exact .gives (.full c b)
  | overflow h => exact .overflow h b

/-- Only two things can happen, and in the second one there is the excuse. -/
theorem cases (h : GivesUnless excuse m a) : Gives m a ∨ m = .error .overflow ∧ excuse := by
  cases h with
  | gives h => exact .inl h
  | overflow h => exact .inr ⟨rfl, h⟩

end GivesUnless

/-- An answer that is right where there is one, and an excuse for there being none. -/
theorem Answers.givesUnless {excuse : Prop} {m : Checked α} {o : Option α} {a : α} (h : Answers m o)
    (right : ∀ b, o = some b → b = a) (excused : o = none → excuse) : GivesUnless excuse m a := by
  cases h with
  | ok b => exact right b rfl ▸ .gives (.ok b)
  | overflow => exact .overflow (excused rfl) a
  | full c => exact .gives (.full c a)

end Checked
end Chiptune
