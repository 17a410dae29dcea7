-- SUMMARY: Single-precision helpers: minimum, maximum, clamping and the remainder of a division.

/-! # Single precision

The few operations on single-precision numbers that the core library does not have, each with its
rule for values that are not a number. -/

namespace ImportAtlas.Single

/-- The smaller of two numbers; the other one if one is not a number. -/
def min (a b : Float32) : Float32 :=
  if a.isNaN then b else if b.isNaN then a else if b < a then b else a

/-- The larger of two numbers; the other one if one is not a number. -/
def max (a b : Float32) : Float32 :=
  if a.isNaN then b else if b.isNaN then a else if a < b then b else a

/-- A number moved into the interval from `lo` to `hi`; what is not a number stays. -/
def clamp (x lo hi : Float32) : Float32 := if x < lo then lo else if hi < x then hi else x

/-- The distance from 1 to the next larger number. -/
def epsilon : Float32 := Float32.ofBits 0x34000000

/-- A finite number, less its sign, as an integer `m` and an exponent `e`: it is
`m * 2 ^ (e - 149)`. -/
def magnitude (x : Float32) : Nat × Nat :=
  let bits := x.toBits.toNat % 0x80000000
  let e := bits / 0x800000
  let m := bits % 0x800000
  if e = 0 then (m, 0) else (m + 0x800000, e - 1)

/-- The power of two `2 ^ (e - 149)`. -/
def power (e : Nat) : Float32 :=
  Float32.ofBits (UInt32.ofNat (if e < 23 then 1 <<< e else (e - 22) * 0x800000))

/-- What is left of `a` after taking away `b` as often as it fits, with the sign of `a`. The
remainder is exact: it is computed on the integers behind the two numbers. -/
def rem (a b : Float32) : Float32 :=
  if a.isNaN || b.isNaN || a.isInf || b == 0 then 0 / 0
  else if b.isInf then a
  else
    let (m, e) := magnitude a
    let (n, f) := magnitude b
    let low := Nat.min e f
    let r := (m <<< (e - low)) % (n <<< (f - low))
    let x := Float32.ofNat r * power low
    if 0x80000000 ≤ a.toBits.toNat then -x else x

/-- The remainder that is not negative. -/
def remEuclid (a b : Float32) : Float32 :=
  let r := rem a b
  if r < 0 then r + b.abs else r

end ImportAtlas.Single
