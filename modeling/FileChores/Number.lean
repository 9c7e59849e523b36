import FileChores.Decimal.Shortest

/-!
# Numbers of a script

Numbers are IEEE doubles. A script writes them as plain digits; their text is the shortest decimal
that reads back, always positional, with `0` for both zeros.
-/

namespace FileChores.Number

def ofDigits (digits : List Char) : Float :=
  Float.ofNat (Nat.ofDigitChars 10 digits 0)

/-- The least mantissa of a normal double, and the weight of its hidden bit. -/
def hiddenBit : Nat := 1 <<< 52

/-- The mantissa and the exponent of two of a finite double, without its sign. -/
def magnitude (x : Float) : Nat × Int :=
  let bits := x.toBits.toNat
  let fraction := bits % hiddenBit
  match bits / hiddenBit % 2048 with
  | 0 => (fraction, -1074)
  | biased + 1 => (hiddenBit + fraction, (biased : Int) - 1074)

def isNegative (x : Float) : Bool :=
  x.toBits.toNat.testBit 63

def text (x : Float) : String :=
  if x.isNaN then "NaN"
  else if x == 0 then "0"
  else
    let unsigned :=
      if x.isInf then "inf"
      else
        let (mantissa, exponent) := magnitude x
        (Decimal.shortest hiddenBit mantissa exponent).positional
    if isNegative x then "-" ++ unsigned else unsigned

end FileChores.Number
