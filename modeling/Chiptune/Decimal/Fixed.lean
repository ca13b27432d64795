/-!
# Decimals with a fixed number of places

A float is a number of the form m · 2^e. `fixed` writes its exact value rounded to some places; a
value halfway between two decimals goes to the even one.
-/

namespace Chiptune.Decimal

/-- The whole number nearest to `num / den`, and the even one of two that are equally near. -/
def roundDiv (num den : Nat) : Nat :=
  let floor := num / den
  let twice := 2 * (num % den)
  if twice < den then floor
  else if den < twice then floor + 1
  else floor + floor % 2

/-- The result is never further than half a unit away. -/
theorem roundDiv_near (num den : Nat) (h : 0 < den) :
    2 * (roundDiv num den * den) ≤ 2 * num + den ∧
      2 * num ≤ 2 * (roundDiv num den * den) + den := by
  have whole := Nat.div_add_mod num den
  have below := Nat.mod_lt num h
  have comm := Nat.mul_comm den (num / den)
  simp only [roundDiv]
  split
  · omega
  · split
    · rw [Nat.add_mul]
      omega
    · rcases Nat.mod_two_eq_zero_or_one (num / den) with even | odd
      · rw [even, Nat.add_zero]
        omega
      · rw [odd, Nat.add_mul]
        omega

/-- Halfway between two whole numbers, the result is the even one. -/
theorem roundDiv_tie (num den : Nat) (h : 2 * (num % den) = den) : roundDiv num den % 2 = 0 := by
  simp only [roundDiv, h, Nat.lt_irrefl, if_false]
  omega

/-- The decimal of `units`, counted in the last of `places` places. -/
def place (places units : Nat) : String :=
  let digits := Nat.toDigits 10 units
  let padded := List.replicate (places + 1 - digits.length) '0' ++ digits
  let whole := padded.take (padded.length - places)
  let fraction := padded.drop (padded.length - places)
  String.ofList whole ++ if places = 0 then "" else "." ++ String.ofList fraction

/-- The bit of a float that its mantissa leaves out. -/
def hiddenBit : Nat := 0x10000000000000

def signBit : Nat := 0x8000000000000000

/-- A float with `places` places; `NaN` and `inf` where it has none. -/
def fixed (places : Nat) (x : Float) : String :=
  if x.isNaN then "NaN"
  else
    let bits := x.toBits.toNat
    let sign := if signBit ≤ bits then "-" else ""
    if x.isInf then sign ++ "inf"
    else
      let exponent := bits / hiddenBit % 2048
      let fraction := bits % hiddenBit
      let mantissa := if exponent = 0 then fraction else hiddenBit + fraction
      let num := (mantissa <<< max exponent 1) * Nat.pow 10 places
      sign ++ place places (roundDiv num (1 <<< 1075))

end Chiptune.Decimal
