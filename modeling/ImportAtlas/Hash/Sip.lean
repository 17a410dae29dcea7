-- SUMMARY: The SipHash-1-3 keyed hash with both keys zero.

/-! # SipHash-1-3

The hash reads its input eight bytes at a time, mixes each word into four words of state with one
round, and ends with three rounds more. The last word holds the bytes that are left and, in its
highest byte, the length of the input modulo 256. -/

namespace ImportAtlas.Sip

/-- The four words of state. -/
structure State where
  v0 : UInt64
  v1 : UInt64
  v2 : UInt64
  v3 : UInt64

def rotate (x : UInt64) (n : UInt64) : UInt64 := (x <<< n) ||| (x >>> (64 - n))

/-- One round of mixing. -/
def State.round (s : State) : State :=
  let a := s.v0 + s.v1
  let b := rotate s.v1 13 ^^^ a
  let a := rotate a 32
  let c := s.v2 + s.v3
  let d := rotate s.v3 16 ^^^ c
  let e := a + d
  let f := rotate d 21 ^^^ e
  let c := c + b
  let b := rotate b 17 ^^^ c
  let c := rotate c 32
  ⟨e, b, c, f⟩

/-- The state before any input, for keys zero. -/
def State.start : State :=
  ⟨0x736f6d6570736575, 0x646f72616e646f6d, 0x6c7967656e657261, 0x7465646279746573⟩

/-- Mix in one word. -/
def State.absorb (s : State) (w : UInt64) : State :=
  let s := { s with v3 := s.v3 ^^^ w }.round
  { s with v0 := s.v0 ^^^ w }

/-- The word that up to eight bytes form, lowest byte first. -/
def word (bytes : List UInt8) : UInt64 :=
  bytes.foldr (fun b w => (w <<< 8) ||| b.toUInt64) 0

/-- Mix in all full words; the bytes left over are the answer's second part. -/
def State.absorbAll (s : State) : List UInt8 → State × List UInt8
  | b₀ :: b₁ :: b₂ :: b₃ :: b₄ :: b₅ :: b₆ :: b₇ :: bs =>
    absorbAll (s.absorb (word [b₀, b₁, b₂, b₃, b₄, b₅, b₆, b₇])) bs
  | bs => (s, bs)

/-- The hash of a sequence of bytes. -/
def hash (bytes : List UInt8) : UInt64 :=
  let (s, rest) := State.start.absorbAll bytes
  let last := word rest ||| (UInt64.ofNat (bytes.length % 256) <<< 56)
  let s := s.absorb last
  let s := { s with v2 := s.v2 ^^^ 0xff }.round.round.round
  s.v0 ^^^ s.v1 ^^^ s.v2 ^^^ s.v3

/-- The hash of a text: its UTF-8 bytes, closed by a byte that occurs in none. -/
def hashText (s : String) : UInt64 := hash (s.toUTF8.toList ++ [0xff])

end ImportAtlas.Sip
