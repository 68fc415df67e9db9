/-!
# Double precision

Magnitudes with a significand of 53 bits, and the one that is nearest to a
ratio of naturals. All arithmetic is exact up to the one rounding at its end;
a ratio halfway between two magnitudes goes to the even significand.
-/

namespace ProcessCompiler

namespace Decimal

/-- The finite magnitude `significand * 2 ^ exponent`. -/
structure Double where
  significand : Nat
  exponent : Int
deriving DecidableEq, Repr

/-- The natural nearest to a ratio; a half goes to the even neighbour. -/
def roundRatio (num den : Nat) : Nat :=
  let q := num / den
  let twice := 2 * (num % den)
  if twice < den then q
  else if den < twice then q + 1
  else if q % 2 == 0 then q else q + 1

/-- The ratio `num / den` in units of `2 ^ exponent`. -/
def inUnits (num den : Nat) (exponent : Int) : Nat × Nat :=
  (num * Nat.pow 2 (-exponent).toNat, den * Nat.pow 2 exponent.toNat)

namespace Double

/-- The bits of a significand. -/
def precision : Nat := 53

/-- The least exponent. -/
def minExponent : Int := -1074

/-- The greatest exponent of a finite magnitude. -/
def maxExponent : Int := 971

/-- The magnitude zero. -/
def zero : Double := ⟨0, minExponent⟩

/-- The exponent at which a ratio above zero fills a significand, or the least
one there is. -/
def exponentOf (num den : Nat) : Int :=
  let guess : Int := (num.log2 : Int) - den.log2 - (precision - 1)
  let (n, d) := inUnits num den guess
  max minExponent (if n < d * Nat.pow 2 (precision - 1) then guess - 1 else guess)

/-- The magnitude nearest to a ratio, unless that is beyond all of them. -/
def nearest? (num den : Nat) : Option Double :=
  if num == 0 then some zero
  else
    let exponent := exponentOf num den
    let (n, d) := inUnits num den exponent
    let significand := roundRatio n d
    let rounded : Double :=
      if significand == Nat.pow 2 precision then ⟨Nat.pow 2 (precision - 1), exponent + 1⟩
      else ⟨significand, exponent⟩
    if maxExponent < rounded.exponent then none else some rounded

/-- The magnitude as a ratio of naturals. -/
def ratio (x : Double) : Nat × Nat :=
  (x.significand * Nat.pow 2 x.exponent.toNat, Nat.pow 2 (-x.exponent).toNat)

/-- The product of two magnitudes, rounded. -/
def mul? (x y : Double) : Option Double :=
  nearest? (x.ratio.1 * y.ratio.1) (x.ratio.2 * y.ratio.2)

/-- The quotient of two magnitudes, rounded. -/
def div? (x y : Double) : Option Double :=
  nearest? (x.ratio.1 * y.ratio.2) (x.ratio.2 * y.ratio.1)

/-- The greatest power of ten of double precision. -/
def maxPower : Nat := 308

/-- A power of ten, rounded. -/
def power? (n : Nat) : Option Double := nearest? (Nat.pow 10 n) 1

/-- The product of a magnitude and a power of ten. A power that is too small
for double precision is taken in steps, and each step rounds. -/
def scale? (x : Double) (exponent : Int) : Option Double :=
  if exponent.natAbs ≤ maxPower then do
    let power ← power? exponent.natAbs
    if 0 ≤ exponent then x.mul? power else x.div? power
  else if x.significand == 0 then some x
  else if 0 ≤ exponent then none
  else do
    let power ← power? maxPower
    let y ← x.div? power
    y.scale? (exponent + maxPower)
termination_by exponent.natAbs
decreasing_by simp only [maxPower] at *; omega

/-- The magnitude of `significand * 10 ^ exponent`, rounded at each step. -/
def ofDecimal? (significand : Nat) (exponent : Int) : Option Double := do
  let x ← nearest? significand 1
  x.scale? exponent

end Double

end Decimal

end ProcessCompiler
