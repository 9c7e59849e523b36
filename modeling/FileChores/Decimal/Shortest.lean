/-!
# Shortest decimals

A positive binary number is `mantissa * 2 ^ exponent`. Of the decimals that read back as the same
binary number, `shortest` takes one with the fewest digits, of those the nearest, and of two
equally near ones the greater. Everything is a comparison of natural numbers: the number and the
two ends of the interval that rounds to it are multiples of one small unit.
-/

namespace FileChores

structure Decimal where
  coefficient : Nat
  exponent : Int
  deriving DecidableEq, Repr

namespace Decimal

/-- A number between the ends of the interval that rounds to it, all in one unit. -/
structure Span where
  low : Nat
  value : Nat
  high : Nat
  closed : Bool

namespace Span

def holds (span : Span) (n : Nat) : Bool :=
  if span.closed then span.low ≤ n && n ≤ span.high else span.low < n && n < span.high

/-- Which multiple of `grid` next to the value stands for it, if one does. -/
def multiple? (span : Span) (grid : Nat) : Option Nat :=
  let below := span.value / grid
  let lower := below * grid
  let upper := (below + 1) * grid
  match span.holds lower, span.holds upper with
  | true, true => if upper - span.value ≤ span.value - lower then some (below + 1) else some below
  | true, false => some below
  | false, true => some (below + 1)
  | false, false => none

/-- The first hit on the grids `unit * 10 ^ n`, …, `unit * 10`, `unit`. The value is a multiple of
the last one. -/
def coarsest (span : Span) (unit : Nat) : Nat → Decimal
  | 0 => ⟨span.value / unit, 0⟩
  | n + 1 =>
      match span.multiple? (unit * Nat.pow 10 (n + 1)) with
      | some coefficient => ⟨coefficient, (n + 1 : Nat)⟩
      | none => coarsest span unit n

end Span

/-- The interval of `mantissa * 2 ^ exponent`, in units of a quarter of the last binary place over
`10 ^ n`, where `n` decimal places hold the number exactly. The gap below a mantissa that is a power
of two is half the gap above it; `lowest` is that mantissa. -/
def span (lowest mantissa : Nat) (exponent : Int) : Span :=
  let scale := Nat.pow 2 exponent.toNat * Nat.pow 10 (-exponent).toNat
  { low := (4 * mantissa - if mantissa = lowest then 1 else 2) * scale
    value := 4 * mantissa * scale
    high := (4 * mantissa + 2) * scale
    closed := mantissa % 2 = 0 }

def shortest (lowest mantissa : Nat) (exponent : Int) : Decimal :=
  let places := (-exponent).toNat
  let unit := 4 * Nat.pow 2 places
  let span := span lowest mantissa exponent
  let found := span.coarsest unit (Nat.toDigits 10 (span.value / unit)).length
  ⟨found.coefficient, found.exponent - places⟩

/-- The digits in their places, filled up with zeros and never with an exponent. -/
def positional (d : Decimal) : String :=
  let digits := Nat.toDigits 10 d.coefficient
  match d.exponent with
  | .ofNat zeros => .ofList (digits ++ List.replicate zeros '0')
  | .negSucc n =>
      let padded := List.replicate (n + 2 - digits.length) '0' ++ digits
      let whole := padded.length - (n + 1)
      .ofList (padded.take whole ++ '.' :: padded.drop whole)

end Decimal

end FileChores
