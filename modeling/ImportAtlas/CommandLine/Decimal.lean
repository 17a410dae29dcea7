-- SUMMARY: Reading a decimal text as the nearest single-precision number.

/-! # Decimal texts

A number on the command line is an optional sign and either a word, `inf`, `infinity` or `nan` in any
case, or digits with an optional point among or around them and an optional exponent. The value is the
single-precision number nearest to the decimal. -/

namespace ImportAtlas

/-- A decimal without its sign: `digits * 10 ^ exponent`. -/
structure Decimal where
  digits : Nat
  exponent : Int
  deriving DecidableEq, Repr

namespace Decimal

def isDigit (c : Char) : Bool := '0' ≤ c && c ≤ '9'

/-- The number that a sequence of digits writes. -/
def natOf (ds : List Char) : Nat := ds.foldl (fun n d => n * 10 + (d.toNat - '0'.toNat)) 0

/-- A sign, true for minus, and the rest. -/
def sign : List Char → Bool × List Char
  | '-' :: cs => (true, cs)
  | '+' :: cs => (false, cs)
  | cs => (false, cs)

/-- The exponent that the rest of a number writes; none if the rest is no exponent. -/
def exponent? : List Char → Option Int
  | [] => some 0
  | c :: cs =>
    if c = 'e' ∨ c = 'E' then
      let (negative, ds) := sign cs
      if ds.isEmpty || !ds.all isDigit then none
      else some (if negative then -(natOf ds : Int) else natOf ds)
    else none

/-- Digits, a point and digits, of which one part may be missing, and an exponent. -/
def parse? (cs : List Char) : Option Decimal := do
  let whole := cs.takeWhile isDigit
  let rest := cs.dropWhile isDigit
  let (fraction, rest) := match rest with
    | '.' :: r => (r.takeWhile isDigit, r.dropWhile isDigit)
    | r => ([], r)
  if whole.isEmpty && fraction.isEmpty then none
  let e ← exponent? rest
  return ⟨natOf (whole ++ fraction), e - fraction.length⟩

/-- The nearest single-precision number. A decimal beyond the range is infinite, and one below half
the smallest number is zero; both are told by the place of the first digit. -/
def toSingle (d : Decimal) : Float32 :=
  let place : Int := (Nat.toDigits 10 d.digits).length + d.exponent
  if d.digits = 0 then 0
  else if 40 < place then 1 / 0
  else if place < -50 then 0
  else if d.exponent < 0 then Float32.ofScientific d.digits true d.exponent.natAbs
  else Float32.ofScientific d.digits false d.exponent.natAbs

end Decimal

/-- The single-precision number that a text writes. -/
def singleOfText? (s : String) : Option Float32 :=
  let (negative, cs) := Decimal.sign s.toList
  let word := (String.ofList cs).toLower
  let size? :=
    if word = "inf" ∨ word = "infinity" then some (1 / 0)
    else if word = "nan" then some (0 / 0)
    else (Decimal.parse? cs).map Decimal.toSingle
  size?.map fun x => if negative then -x else x

end ImportAtlas
