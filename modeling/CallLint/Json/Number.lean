import CallLint.Decimal

/-!
# Json numbers

A number is a sign, a whole part, a fraction and an exponent. A value that cannot be held is
refused: the first digits are taken as a whole number of 64 bits, which is then scaled by a power of
ten, each of them rounded to a floating-point number.

* `Number.ofChars?` reads a number, `Number.isHuge` says that it cannot be held.
-/

namespace CallLint.Json

/-- The parts of a number that is written out; its sign says nothing about its size. -/
structure Number where
  whole : List Char
  fraction : List Char
  exponent : Int
deriving DecidableEq, Repr

namespace Number

/-- A nonempty run of digits and what follows it. -/
def digits? (cs : List Char) : Option (List Char × List Char) :=
  let ds := cs.takeWhile Char.isDigit
  if ds.isEmpty then none else some (ds, cs.dropWhile Char.isDigit)

/-- The value of a digit. -/
def digitValue (c : Char) : Nat := c.toNat - '0'.toNat

/-- The number that a run of digits stands for. -/
def valueOfDigits (ds : List Char) : Nat := ds.foldl (fun n d => 10 * n + digitValue d) 0

/-- Reads the whole part; only a zero may start with a zero. -/
def whole? (cs : List Char) : Option (List Char × List Char) := do
  let (ds, rest) ← digits? cs
  if ds.length > 1 && ds.head? = some '0' then none else some (ds, rest)

/-- Reads the fraction, if there is one. -/
def fraction? : List Char → Option (List Char × List Char)
  | '.' :: cs => digits? cs
  | cs => some ([], cs)

/-- Reads the exponent, if there is one. -/
def exponent? : List Char → Option (Int × List Char)
  | c :: cs =>
    if c = 'e' || c = 'E' then
      match cs with
      | '-' :: ds => (digits? ds).map fun (ds, rest) => (-(valueOfDigits ds : Int), rest)
      | '+' :: ds => (digits? ds).map fun (ds, rest) => ((valueOfDigits ds : Int), rest)
      | ds => (digits? ds).map fun (ds, rest) => ((valueOfDigits ds : Int), rest)
    else some (0, c :: cs)
  | [] => some (0, [])

/-- The number that some characters are. -/
def ofChars? (cs : List Char) : Option Number := do
  let (whole, rest) ← whole? (match cs with | '-' :: cs => cs | cs => cs)
  let (fraction, rest) ← fraction? rest
  let (exponent, rest) ← exponent? rest
  if rest.isEmpty then some ⟨whole, fraction, exponent⟩ else none

/-! ## Size -/

/-- The first number that needs more than 64 bits. -/
def significandLimit : Nat := Decimal.powerOfTwo 64

/-- Adds digits to a significand up to the first one that it has no room for, and says how many. -/
def take (n : Nat) : List Char → Nat × Nat
  | [] => (n, 0)
  | d :: ds =>
    let m := 10 * n + digitValue d
    if m < significandLimit then
      let (n, count) := take m ds
      (n, count + 1)
    else (n, 0)

/-- The significand of a number, and the power of ten that it is scaled by. -/
def scaled (x : Number) : Nat × Int :=
  let (n, count) := take 0 x.whole
  let (n, places) := take n x.fraction
  (n, (x.whole.length - count : Nat) - places + x.exponent)

/-- The nearest number whose binary form has 53 places before its zeros at the end; a half goes to
the even neighbour. -/
def nearest (n : Nat) : Nat :=
  let unit := Decimal.powerOfTwo (n.log2 + 1 - 53)
  Decimal.roundDiv n unit * unit

/-- The least number that is rounded to infinity. -/
def infinity : Nat := (Decimal.powerOfTwo 54 - 1) * Decimal.powerOfTwo 970

/-- The greatest power of ten by which a significand is scaled at once. -/
def maxPower : Int := 308

/-- Whether a number is too large to be held. -/
def isHuge (x : Number) : Bool :=
  let (n, power) := x.scaled
  n ≠ 0 && (maxPower < power
    || (0 ≤ power && infinity ≤ nearest n * nearest (Nat.pow 10 power.toNat)))

end Number

end CallLint.Json
