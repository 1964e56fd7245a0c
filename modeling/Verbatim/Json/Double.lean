/-! Numbers of double precision, held exactly: a sign, a whole significand below 2^53 and a power of
two. Every operation rounds an exact fraction to the nearest double, ties going to the even
significand. -/

namespace Verbatim.Json

structure Double where
  negative : Bool
  significand : Nat
  exponent : Int
  deriving DecidableEq, Repr

namespace Double

def zero (negative : Bool) : Double := ⟨negative, 0, 0⟩

def isZero (x : Double) : Bool := x.significand = 0

def negate (x : Double) : Double := { x with negative := !x.negative }

/-- Smallest power of two that a significand may be multiplied by. -/
def minExponent : Int := -1074

def maxExponent : Int := 971

/-- `numerator / denominator · 2 ^ shift` as a fraction of whole numbers. -/
def scaled (numerator denominator : Nat) (shift : Int) : Nat × Nat :=
  match shift with
  | .ofNat up => (numerator * Nat.pow 2 up, denominator)
  | .negSucc down => (numerator, denominator * Nat.pow 2 (down + 1))

/-- The nearest whole number, the even one of two equally near. -/
def roundHalfEven (numerator denominator : Nat) : Nat :=
  let quotient := numerator / denominator
  let twice := 2 * (numerator % denominator)
  if twice < denominator then quotient
  else if denominator < twice then quotient + 1
  else quotient + quotient % 2

/-- The power of two at which the fraction has 53 binary digits, or the smallest one there is. -/
def exponentFor (numerator denominator : Nat) : Int :=
  let guess : Int := max ((numerator.log2 : Int) - denominator.log2 - 52) minExponent
  let (top, bottom) := scaled numerator denominator (-guess)
  if top < Nat.pow 2 52 * bottom then max (guess - 1) minExponent else guess

/-- The double nearest to a fraction; none when it lies beyond the largest one. -/
def ofFraction (negative : Bool) (numerator denominator : Nat) : Option Double :=
  if numerator = 0 then some (zero negative)
  else
    let exponent := exponentFor numerator denominator
    let (top, bottom) := scaled numerator denominator (-exponent)
    let significand := roundHalfEven top bottom
    if significand = 0 then some (zero negative)
    else
      let (significand, exponent) :=
        if significand = Nat.pow 2 53 then (Nat.pow 2 52, exponent + 1) else (significand, exponent)
      if maxExponent < exponent then none else some ⟨negative, significand, exponent⟩

def ofNat (n : Nat) : Option Double := ofFraction false n 1

def magnitude (x : Double) : Nat × Nat := scaled x.significand 1 x.exponent

def multiply (x y : Double) : Option Double :=
  ofFraction (x.negative != y.negative) (x.magnitude.1 * y.magnitude.1)
    (x.magnitude.2 * y.magnitude.2)

def divide (x y : Double) : Option Double :=
  ofFraction (x.negative != y.negative) (x.magnitude.1 * y.magnitude.2)
    (x.magnitude.2 * y.magnitude.1)

/-- The double nearest to `digits · 10 ^ exponent`. Exponents far outside the range of doubles are
answered without computing the power. -/
def ofDecimal (negative : Bool) (digits : Nat) (exponent : Int) : Option Double :=
  if digits = 0 then some (zero negative)
  else if exponent > 400 then none
  else if exponent < -400 - (digits.log2 : Int) then some (zero negative)
  else match exponent with
    | .ofNat up => ofFraction negative (digits * Nat.pow 10 up) 1
    | .negSucc down => ofFraction negative digits (Nat.pow 10 (down + 1))

example : ofDecimal false 1 (-1) = some ⟨false, 7205759403792794, -56⟩ := by decide

/-! Shortest digits. The fractions that round to a double form an interval around it; the fewest
decimal digits that name a fraction in the interval are taken, the nearest ones if several do. -/

structure Decimal where
  digits : Nat
  exponent : Int
  deriving DecidableEq, Repr

/-- The interval as numerators over a common denominator: lower end, the double itself, upper
end. -/
structure Rounding where
  lower : Nat
  middle : Nat
  upper : Nat
  denominator : Nat
  closed : Bool

def rounding (x : Double) : Rounding :=
  let below := if x.significand = Nat.pow 2 52 ∧ minExponent < x.exponent then 1 else 2
  let (factor, denominator) := scaled 1 4 x.exponent
  ⟨(4 * x.significand - below) * factor, 4 * x.significand * factor,
    (4 * x.significand + 2) * factor, denominator, x.significand % 2 = 0⟩

def tenTo (exponent : Int) : Nat × Nat :=
  match exponent with
  | .ofNat up => (Nat.pow 10 up, 1)
  | .negSucc down => (1, Nat.pow 10 (down + 1))

def Rounding.contains (interval : Rounding) (digits : Nat) (exponent : Int) : Bool :=
  let (top, bottom) := tenTo exponent
  let point := digits * top * interval.denominator
  let lower := interval.lower * bottom
  let upper := interval.upper * bottom
  if interval.closed then lower ≤ point && point ≤ upper else lower < point && point < upper

/-- The multiple of a power of ten nearest to the double among its two neighbours, provided it
lies in the interval. -/
def Rounding.onGrid (interval : Rounding) (exponent : Int) : Option Decimal :=
  let (top, bottom) := tenTo exponent
  let numerator := interval.middle * bottom
  let denominator := interval.denominator * top
  let floor := numerator / denominator
  let nearest := roundHalfEven numerator denominator
  let other := if nearest = floor then floor + 1 else floor
  if interval.contains nearest exponent then some ⟨nearest, exponent⟩
  else if interval.contains other exponent then some ⟨other, exponent⟩
  else none

/-- The exponent of the leading decimal digit of a positive fraction, found by trying `fuel` powers
downwards. -/
def leadingExponent (numerator denominator : Nat) : Nat → Int → Int
  | 0, exponent => exponent
  | fuel + 1, exponent =>
    let (top, bottom) := tenTo exponent
    if top * denominator ≤ numerator * bottom then exponent
    else leadingExponent numerator denominator fuel (exponent - 1)

def searchGrids (interval : Rounding) (leading : Int) : Nat → Nat → Decimal
  | 0, _ => ⟨interval.middle / interval.denominator, 0⟩
  | fuel + 1, places =>
    match interval.onGrid (leading - places) with
    | some decimal => decimal
    | none => searchGrids interval leading fuel (places + 1)

def stripZeros : Nat → Decimal → Decimal
  | 0, decimal => decimal
  | fuel + 1, decimal =>
    if decimal.digits % 10 = 0 ∧ decimal.digits ≠ 0 then
      stripZeros fuel ⟨decimal.digits / 10, decimal.exponent + 1⟩
    else decimal

/-- Seventeen digits always suffice, and no double reaches 10^309. -/
def shortest (x : Double) : Decimal :=
  let interval := x.rounding
  let leading := leadingExponent interval.middle interval.denominator 700 309
  stripZeros 20 (searchGrids interval leading 17 0)

/-! The written form. Numbers from 0.00001 up to 10^16 are written out, with at least one digit
after the point; others have one digit before the point and a signed exponent. -/

structure Layout where
  smallestPlain : Int
  largestPlain : Int

def layout : Layout := ⟨-5, 15⟩

def zeros (count : Nat) : String := String.ofList (List.replicate count '0')

def plain (digits : List Char) (leading : Int) : String :=
  match leading with
  | .ofNat whole =>
    let integer := digits.take (whole + 1)
    let fraction := digits.drop (whole + 1)
    String.ofList integer ++ zeros (whole + 1 - integer.length) ++ "." ++
      (if fraction.isEmpty then "0" else String.ofList fraction)
  | .negSucc gap => "0." ++ zeros gap ++ String.ofList digits

def scientific (digits : List Char) (leading : Int) : String :=
  let fraction := digits.drop 1
  String.ofList (digits.take 1) ++
    (if fraction.isEmpty then "" else "." ++ String.ofList fraction) ++
    "e" ++ (if leading < 0 then "-" else "+") ++ toString leading.natAbs

def render (x : Double) : String :=
  let sign := if x.negative then "-" else ""
  if x.isZero then sign ++ "0.0"
  else
    let decimal := x.shortest
    let digits := Nat.toDigits 10 decimal.digits
    let leading := decimal.exponent + (digits.length - 1 : Nat)
    sign ++ if layout.smallestPlain ≤ leading ∧ leading ≤ layout.largestPlain then
      plain digits leading
    else scientific digits leading

end Double

end Verbatim.Json
