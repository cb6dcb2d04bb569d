/-!
# Decimals

A floating-point number is a fraction whose denominator is a power of two, so its value has an exact
decimal form. It is written with two places, rounded to the nearest; a half goes to the even
neighbour.

* `Decimal.roundDiv_within_half`: a rounded quotient is off by half a unit at most.
-/

namespace CallLint.Decimal

/-- A quotient rounded to the nearest number; a half goes to the even neighbour. -/
def roundDiv (num den : Nat) : Nat :=
  let q := num / den
  let twice := 2 * (num % den)
  if twice < den then q
  else if den < twice then q + 1
  else q + q % 2

/-- A rounded quotient is off by half a unit at most, on either side. -/
theorem roundDiv_within_half (num : Nat) {den : Nat} (h : 0 < den) :
    2 * (den * roundDiv num den) ≤ 2 * num + den ∧
    2 * num ≤ 2 * (den * roundDiv num den) + den := by
  have hparts : den * (num / den) + num % den = num := Nat.div_add_mod num den
  have hrest : num % den < den := Nat.mod_lt num h
  have hup : den * (num / den + 1) = den * (num / den) + den := Nat.mul_succ den (num / den)
  unfold roundDiv
  dsimp only
  split
  · -- less than half a unit is left over
    omega
  · split
    · -- more than half a unit is left over
      omega
    · -- exactly half a unit is left over, so both neighbours are equally near
      rcases Nat.mod_two_eq_zero_or_one (num / den) with heven | hodd
      · rw [heven, Nat.add_zero]
        omega
      · rw [hodd]
        omega

/-- A power of two. -/
def powerOfTwo (n : Nat) : Nat := Nat.pow 2 n

/-- The bits of the significand that are written out. -/
def significandBits : Nat := 52

/-- The value of a floating-point number that is finite and not negative, as a fraction. -/
def fraction (x : Float) : Nat × Nat :=
  let bits := x.toBits.toNat
  let exponent := bits / powerOfTwo significandBits % powerOfTwo 11
  let significand := bits % powerOfTwo significandBits
  let shift := 1023 + significandBits
  if exponent = 0 then (significand, powerOfTwo (shift - 1))
  else
    let whole := significand + powerOfTwo significandBits
    if shift ≤ exponent then (whole * powerOfTwo (exponent - shift), 1)
    else (whole, powerOfTwo (shift - exponent))

/-- A number of hundredths with two places. -/
def renderHundredths (n : Nat) : String :=
  toString (n / 100) ++ "." ++ toString (n / 10 % 10) ++ toString (n % 10)

/-- A floating-point number that is finite and not negative, with two places. -/
def twoPlaces (x : Float) : String :=
  let (num, den) := fraction x
  renderHundredths (roundDiv (100 * num) den)

end CallLint.Decimal
