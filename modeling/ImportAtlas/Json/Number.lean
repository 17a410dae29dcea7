-- SUMMARY: JSON numbers as they are written, and whether one fits a binary64 number.
import ImportAtlas.Json.Reader

/-! # Numbers

A number is kept as it is written: no part of the library computes with one. What matters is whether
it is grammatical and, for a number that is kept, whether its value is finite in binary64. -/

namespace ImportAtlas.Json

def isDigit (c : Char) : Bool := '0' ≤ c && c ≤ '9'

/-- A number as it is written. -/
structure Number where
  negative : Bool
  whole : List Char
  fraction : List Char := []
  /-- the sign, true for minus, and the digits -/
  exponent : Option (Bool × List Char) := none
  deriving DecidableEq, Repr

namespace Number

/-- The largest significand that is kept in full. -/
def maxSignificand : Nat := 0xFFFFFFFFFFFFFFFF

def digitValue (c : Char) : Nat := c.toNat - '0'.toNat

/-- Append digits to a significand while it stays in range; the digits left over are the answer's
second part. -/
def absorb (sig : Nat) : List Char → Nat × List Char
  | [] => (sig, [])
  | d :: ds =>
    let next := sig * 10 + digitValue d
    if next ≤ maxSignificand then absorb next ds else (sig, d :: ds)

/-- The significand and the power of ten that approximate the number: digits past the range of the
significand count only by their place. -/
def parts (n : Number) : Nat × Int :=
  let (sig, dropped) := absorb 0 n.whole
  let (sig, unread) := absorb sig n.fraction
  let place : Int := dropped.length - (n.fraction.length - unread.length : Nat)
  match n.exponent with
  | none => (sig, place)
  | some (negative, digits) =>
    let e : Int := digits.foldl (fun e d => e * 10 + digitValue d) 0
    (sig, if negative then place - e else place + e)

/-- Whether the number is finite in binary64. -/
def fits (n : Number) : Bool :=
  let (sig, e) := n.parts
  sig == 0 || e < 0 ||
    (e ≤ 308 && (Float.ofScientific sig false 0 * Float.ofScientific 1 false e.toNat).isFinite)

def isInteger (n : Number) : Bool := n.fraction.isEmpty && n.exponent.isNone

/-- The number as it is written. -/
def chars (n : Number) : List Char :=
  (if n.negative then ['-'] else []) ++ n.whole ++
    (if n.fraction.isEmpty then [] else '.' :: n.fraction) ++
    match n.exponent with
    | none => []
    | some (negative, digits) => 'e' :: (if negative then ['-'] else []) ++ digits

end Number

/-! ## Reading

A number may be cut off by the end of the text. A reader that keeps the number reports the end of the
text, one that passes over it reports a bad number, so the cause to report is an argument. -/

namespace Reader

/-- As many digits as there are. -/
def digits : Reader (List Char) := fun s =>
  .ok ⟨s.takeWhile isDigit, s.dropWhile isDigit, (List.dropWhile_sublist _).length_le⟩

def minus : Reader Bool
  | '-' :: r => .ok ⟨true, r, Nat.le_succ _⟩
  | s => Reader.pure false s

/-- The digits before the point: a zero that no digit follows, or digits that begin with none. -/
def wholePart (cut : Cause) : Reader (List Char)
  | [] => .error (.before cut [])
  | c :: r =>
    if c = '0' then
      if (r.head?.map isDigit).getD false then .error (.withNext .invalidNumber r)
      else .ok ⟨[c], r, Nat.le_succ _⟩
    else if isDigit c then digits (c :: r)
    else .error (.before .invalidNumber r)

/-- The digits behind the point, at least one if there is a point. -/
def fractionPart (cut : Cause) : Reader (List Char)
  | '.' :: [] => .error (.withNext cut [])
  | '.' :: c :: r =>
    if isDigit c then
      match digits (c :: r) with
      | .error p => .error p
      | .ok ⟨ds, r', h⟩ => .ok ⟨ds, r', length_le_cons_of_le '.' h⟩
    else .error (.withNext .invalidNumber (c :: r))
  | s => Reader.pure [] s

/-- The sign of an exponent. -/
def exponentSign : Reader Bool
  | '+' :: r => .ok ⟨false, r, Nat.le_succ _⟩
  | s => minus s

def exponentDigits (cut : Cause) : Reader (List Char)
  | [] => .error (.before cut [])
  | c :: r => if isDigit c then digits (c :: r) else .error (.before .invalidNumber r)

def exponentPart (cut : Cause) : Reader (Option (Bool × List Char)) := do
  match ← peek with
  | some 'e' | some 'E' => do
    advance
    let negative ← exponentSign
    let ds ← exponentDigits cut
    return some (negative, ds)
  | _ => return none

/-- A grammatical number. -/
def numeral (cut : Cause) : Reader Number := do
  let negative ← minus
  let whole ← wholePart cut
  let fraction ← fractionPart cut
  let exponent ← exponentPart cut
  return { negative, whole, fraction, exponent }

/-- A number that is kept: it has to fit binary64. -/
def number : Reader Number := do
  let n ← numeral .endInValue
  if n.fits then return n else fail .numberOutOfRange

end Reader

end ImportAtlas.Json
