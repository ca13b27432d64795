/-!
# Numbers inside byte strings

Streams, cartridge images and sound files hold numbers of several bytes. `little?` reads one
with the least significant byte first and `littleBytes` writes one; `big?` reads the other byte
order. A reader that would touch a byte outside the string answers nothing.

The two directions of the little-endian form agree: `little?` finds `n` again at any place that
holds `littleBytes width n` (`little?_of_holds`).
-/

namespace Chiptune.Bytes

/-- The number of `width` bytes at `i`, least significant byte first. -/
def little? (b : ByteArray) : (width i : Nat) → Option Nat
  | 0, _ => some 0
  | width + 1, i => do
    let low ← b[i]?
    let high ← little? b width (i + 1)
    return low.toNat + 256 * high

/-- The number of `width` bytes at `i`, most significant byte first, written behind the digits
`acc` that were read already. -/
def bigFrom? (b : ByteArray) : (width i acc : Nat) → Option Nat
  | 0, _, acc => some acc
  | width + 1, i, acc => do
    let digit ← b[i]?
    bigFrom? b width (i + 1) (256 * acc + digit.toNat)

/-- The number of `width` bytes at `i`, most significant byte first. -/
def big? (b : ByteArray) (width i : Nat) : Option Nat := bigFrom? b width i 0

/-- The `len` bytes from `i` on, when the string holds all of them. -/
def slice? (b : ByteArray) (i len : Nat) : Option ByteArray :=
  if i + len ≤ b.size then some (b.extract i (i + len)) else none

/-- The `width` low bytes of `n`, least significant byte first. -/
def littleBytes : (width n : Nat) → List UInt8
  | 0, _ => []
  | width + 1, n => UInt8.ofNat n :: littleBytes width (n / 256)

@[simp] theorem length_littleBytes (width n : Nat) : (littleBytes width n).length = width := by
  induction width generalizing n with
  | zero => rfl
  | succ width ih => simp [littleBytes, ih]

/-- The string `b` holds the bytes `l` from place `i` on. -/
def Holds (b : ByteArray) (i : Nat) (l : List UInt8) : Prop := ∀ k, k < l.length → b[i + k]? = l[k]?

theorem Holds.head {b : ByteArray} {i : Nat} {x : UInt8} {l : List UInt8}
    (h : Holds b i (x :: l)) : b[i]? = some x := by
  simpa using h 0 (by simp)

theorem Holds.tail {b : ByteArray} {i : Nat} {x : UInt8} {l : List UInt8}
    (h : Holds b i (x :: l)) : Holds b (i + 1) l := by
  intro k hk
  have := h (k + 1) (by simpa using hk)
  simpa [Nat.add_assoc, Nat.add_comm 1 k] using this

theorem holds_nil {b : ByteArray} {i : Nat} : Holds b i [] := by
  intro k hk
  cases hk

theorem holds_cons {b : ByteArray} {i : Nat} {x : UInt8} {l : List UInt8} :
    Holds b i (x :: l) ↔ b[i]? = some x ∧ Holds b (i + 1) l := by
  constructor
  · intro h
    exact ⟨h.head, h.tail⟩
  · rintro ⟨head, tail⟩ k hk
    cases k with
    | zero => simpa using head
    | succ k =>
      have next := tail k (by simpa using hk)
      simpa [Nat.add_assoc, Nat.add_comm 1 k] using next

theorem holds_append {b : ByteArray} {i : Nat} {l m : List UInt8} :
    Holds b i (l ++ m) ↔ Holds b i l ∧ Holds b (i + l.length) m := by
  induction l generalizing i with
  | nil => simp [holds_nil]
  | cons x l ih =>
    have place : i + (l.length + 1) = i + 1 + l.length := by omega
    rw [List.cons_append, holds_cons, holds_cons, ih, List.length_cons, and_assoc, place]

/-- How many numbers `width` bytes can tell apart. -/
def span : (width : Nat) → Nat
  | 0 => 1
  | width + 1 => 256 * span width

/-- Reading back what `littleBytes` wrote gives the number again, if it fits. -/
theorem little?_of_holds {b : ByteArray} {width i n : Nat} (fits : n < span width)
    (h : Holds b i (littleBytes width n)) : little? b width i = some n := by
  induction width generalizing i n with
  | zero => simp [little?, span] at fits ⊢; omega
  | succ width ih =>
    have low := h.head
    have high := ih (n := n / 256) (by simp only [span] at fits; omega) h.tail
    simp [little?, low, high]
    omega

end Chiptune.Bytes
