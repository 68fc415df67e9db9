import ProcessCompiler.Decimal.Double
/-!
# Shortest decimals

A magnitude is written with the fewest digits that read back as it, and of
two such decimals the nearer one. Where the point stands and when an exponent
is written is decided by `Double.text`.
-/

namespace ProcessCompiler

namespace Decimal

/-- The decimal `digits * 10 ^ exponent`. -/
structure Scientific where
  digits : Nat
  exponent : Int
deriving DecidableEq, Repr

/-- Compare `a * 10 ^ i` with `n * 2 ^ j`. -/
def compareScaled (a : Nat) (i : Int) (n : Nat) (j : Int) : Ordering :=
  compare (a * Nat.pow 10 i.toNat * Nat.pow 2 (-j).toNat)
    (n * Nat.pow 2 j.toNat * Nat.pow 10 (-i).toNat)

namespace Double

/-- The magnitude below is half as far away as the one above. -/
def narrowBelow (x : Double) : Bool :=
  x.significand == Nat.pow 2 (precision - 1) && minExponent < x.exponent

/-- The decimal lies among the reals that round to the magnitude: between the
points halfway to its neighbours, which belong to it when it is even. -/
def readsBack (x : Double) (d : Scientific) : Bool :=
  let low := 4 * x.significand - (if x.narrowBelow then 1 else 2)
  let high := 4 * x.significand + 2
  let even := x.significand % 2 == 0
  let below := compareScaled d.digits d.exponent low (x.exponent - 2)
  let above := compareScaled d.digits d.exponent high (x.exponent - 2)
  (below == .gt || even && below == .eq) && (above == .lt || even && above == .eq)

/-- The number of places before the point: the least `k` with
`x < 10 ^ k`, found from the binary logarithm and set right by comparison. -/
def places (x : Double) : Int :=
  let bits : Int := x.significand.log2 + x.exponent
  let guess := bits * 30103 / 100000
  let above (k : Int) := compareScaled 1 k x.significand x.exponent == .gt
  ([guess, guess + 1, guess + 2].find? above).getD (guess + 3)

/-- The decimal with some digits that reads back, if there is one: of the two
neighbours on the grid the nearer one that does, and the even one at a tie. -/
def withDigits? (x : Double) (count : Nat) : Option Scientific :=
  let exponent := x.places - count
  let (num, den) := x.ratio
  let n := num * Nat.pow 10 (-exponent).toNat
  let d := den * Nat.pow 10 exponent.toNat
  let near := roundRatio n d
  let low := n / d
  let far := if near == low then low + 1 else low
  [near, far].map (⟨·, exponent⟩) |>.find? x.readsBack

/-- Move the zeros at the end of a decimal into its exponent. -/
def stripZeros : Nat → Scientific → Scientific
  | 0, d => d
  | n + 1, d =>
    if d.digits % 10 == 0 then stripZeros n ⟨d.digits / 10, d.exponent + 1⟩ else d

/-- The digits that always suffice. -/
def maxDigits : Nat := 17

/-- The shortest decimal of a magnitude above zero. -/
def shortest (x : Double) : Scientific :=
  match ((List.range maxDigits).map (· + 1)).findSome? x.withDigits? with
  | some d => stripZeros (maxDigits + 1) d
  | none => ⟨x.ratio.1 * Nat.pow 5 (-x.exponent).toNat, -((-x.exponent).toNat : Int)⟩

/-- A magnitude as text: with a point and at least one digit on either side of
it for numbers from `10 ^ -5` to below `10 ^ 16`, else with an exponent. -/
def text (x : Double) : String :=
  if x.significand == 0 then "0.0"
  else
    let d := x.shortest
    let digits := Nat.toDigits 10 d.digits
    let zeros (n : Int) := List.replicate n.toNat '0'
    let point : Int := digits.length + d.exponent
    if 0 ≤ d.exponent && point ≤ 16 then String.ofList (digits ++ zeros d.exponent ++ ['.', '0'])
    else if 0 < point && point ≤ 16 then
      String.ofList (digits.take point.toNat ++ '.' :: digits.drop point.toNat)
    else if -5 < point && point ≤ 0 then String.ofList ('0' :: '.' :: zeros (-point) ++ digits)
    else
      let fraction := if digits.length == 1 then [] else '.' :: digits.drop 1
      let sign := if point ≤ 0 then "e-" else "e+"
      String.ofList (digits.take 1 ++ fraction) ++ sign ++ toString (point - 1).natAbs

end Double

end Decimal

end ProcessCompiler
