-- SUMMARY: JSON strings: reading with and without checking surrogates, and quoting.
import ImportAtlas.Json.Reader

/-! # Strings

A string is read in one of two ways. A string that is kept becomes text, so an escaped surrogate has
to stand in a pair. A string that is passed over only has to be grammatical, and an escaped surrogate
may stand alone. `quote` writes a text so that reading it gives the text back. -/

namespace ImportAtlas.Json

/-- The value of a hexadecimal digit. -/
def hexValue? (c : Char) : Option Nat :=
  if '0' ≤ c ∧ c ≤ '9' then some (c.toNat - '0'.toNat)
  else if 'a' ≤ c ∧ c ≤ 'f' then some (c.toNat - 'a'.toNat + 10)
  else if 'A' ≤ c ∧ c ≤ 'F' then some (c.toNat - 'A'.toNat + 10)
  else none

/-- Four hexadecimal digits. A text with fewer than four bytes left is cut off, whatever they are. -/
def hexUnit : Reader Nat
  | a :: b :: c :: d :: r =>
    match hexValue? a, hexValue? b, hexValue? c, hexValue? d with
    | some a, some b, some c, some d =>
      .ok ⟨((a * 16 + b) * 16 + c) * 16 + d, r, by simp only [List.length_cons]; omega⟩
    | _, _, _, _ => .error (.before .invalidEscape r)
  | s => .error (.before (if byteCount s < 4 then .endInString else .invalidEscape) [])

/-- One element of a string as it is written: a character, or an escaped code unit. -/
inductive Piece where
  | char (c : Char)
  | unit (n : Nat)
  deriving DecidableEq, Repr

/-- The character that a letter behind a backslash names. -/
def escaped? : Char → Option Char
  | '"' => some '"'
  | '\\' => some '\\'
  | '/' => some '/'
  | 'b' => some '\x08'
  | 'f' => some '\x0c'
  | 'n' => some '\n'
  | 'r' => some '\r'
  | 't' => some '\t'
  | _ => none

/-- An escape sequence, behind its backslash. -/
def escape : Reader Piece
  | [] => .error (.before .endInString [])
  | 'u' :: r =>
    match hexUnit r with
    | .error p => .error p
    | .ok ⟨n, r', h⟩ => .ok ⟨.unit n, r', length_le_cons_of_le 'u' h⟩
  | c :: r =>
    match escaped? c with
    | some c => .ok ⟨.char c, r, length_le_cons _ r⟩
    | none => .error (.before .invalidEscape r)

def isHighSurrogate (n : Nat) : Bool := 0xD800 ≤ n && n ≤ 0xDBFF

def isLowSurrogate (n : Nat) : Bool := 0xDC00 ≤ n && n ≤ 0xDFFF

/-- The character of a pair of surrogates. -/
def pairValue (high low : Nat) : Char :=
  Char.ofNat ((high - 0xD800) * 0x400 + (low - 0xDC00) + 0x10000)

/-- The second half of a pair, behind its first half. -/
def lowSurrogate : Reader Nat
  | [] => .error (.before .endInString [])
  | '\\' :: [] => .error (.before .endInString [])
  | '\\' :: 'u' :: r =>
    match hexUnit r with
    | .error p => .error p
    | .ok ⟨n, r', h⟩ =>
      if isLowSurrogate n then .ok ⟨n, r', by simp only [List.length_cons]; omega⟩
      else .error (.before .loneSurrogate r')
  | '\\' :: _ :: r => .error (.before .halfEscape r)
  | _ :: r => .error (.before .halfEscape r)

/-- The character that a piece begins; the rest of a pair is taken with it. -/
def Piece.complete : Piece → Reader Char
  | .char c => pure c
  | .unit n =>
    if isLowSurrogate n then Reader.fail .loneSurrogate
    else if isHighSurrogate n then do return pairValue n (← lowSurrogate)
    else pure (Char.ofNat n)

/-- The characters that pieces stand for, if every surrogate is half of a pair. -/
def Piece.chars? : List Piece → Option (List Char)
  | [] => some []
  | .char c :: ps => do return c :: (← chars? ps)
  | .unit n :: .unit m :: ps =>
    if isHighSurrogate n then
      if isLowSurrogate m then do return pairValue n m :: (← chars? ps) else none
    else if isLowSurrogate n then none
    else do return Char.ofNat n :: (← chars? (.unit m :: ps))
  | .unit n :: ps =>
    if isHighSurrogate n || isLowSurrogate n then none
    else do return Char.ofNat n :: (← chars? ps)

/-- The text that pieces stand for. -/
def Piece.text? (ps : List Piece) : Option String := (Piece.chars? ps).map String.ofList

/-- Whether a character may not stand in a string as it is. -/
def isControl (c : Char) : Bool := c.toNat < 0x20

/-- The characters of a kept string up to its closing quote, which is taken. -/
def textTail (s : List Char) : Except Problem (Taken (List Char) s) :=
  match s with
  | [] => .error (.before .endInString [])
  | '"' :: r => .ok ⟨[], r, Nat.le_succ _⟩
  | '\\' :: r =>
    match escape r with
    | .error p => .error p
    | .ok ⟨piece, r₁, h₁⟩ =>
      match piece.complete r₁ with
      | .error p => .error p
      | .ok ⟨c, r₂, h₂⟩ =>
        match textTail r₂ with
        | .error p => .error p
        | .ok ⟨cs, r₃, h₃⟩ => .ok ⟨c :: cs, r₃, by simp only [List.length_cons]; omega⟩
  | c :: r =>
    if isControl c then .error (.before .controlCharacter (c :: r))
    else
      match textTail r with
      | .error p => .error p
      | .ok ⟨cs, r', h⟩ => .ok ⟨c :: cs, r', Nat.le_succ_of_le h⟩
termination_by s.length

/-- The pieces of a string that is passed over, up to its closing quote, which is taken. -/
def pieceTail (s : List Char) : Except Problem (Taken (List Piece) s) :=
  match s with
  | [] => .error (.before .endInString [])
  | '"' :: r => .ok ⟨[], r, Nat.le_succ _⟩
  | '\\' :: r =>
    match escape r with
    | .error p => .error p
    | .ok ⟨piece, r₁, h₁⟩ =>
      match pieceTail r₁ with
      | .error p => .error p
      | .ok ⟨ps, r₂, h₂⟩ => .ok ⟨piece :: ps, r₂, by simp only [List.length_cons]; omega⟩
  | c :: r =>
    if isControl c then .error (.before .controlCharacter (c :: r))
    else
      match pieceTail r with
      | .error p => .error p
      | .ok ⟨ps, r', h⟩ => .ok ⟨.char c :: ps, r', Nat.le_succ_of_le h⟩
termination_by s.length

namespace Reader

/-- A kept string, behind its opening quote. -/
def textBody : Reader String := do return String.ofList (← textTail)

/-- A string that is passed over, behind its opening quote. -/
def pieces : Reader (List Piece) := pieceTail

end Reader

/-! ## Quoting -/

/-- A lower-case hexadecimal digit. -/
def hexDigit (n : Nat) : Char :=
  if n < 10 then Char.ofNat ('0'.toNat + n) else Char.ofNat ('a'.toNat + (n - 10))

/-- The written form of a character inside quotes. -/
def quoteChar (c : Char) : List Char :=
  if c = '"' then ['\\', '"']
  else if c = '\\' then ['\\', '\\']
  else if c = '\x08' then ['\\', 'b']
  else if c = '\x0c' then ['\\', 'f']
  else if c = '\n' then ['\\', 'n']
  else if c = '\r' then ['\\', 'r']
  else if c = '\t' then ['\\', 't']
  else if isControl c then ['\\', 'u', '0', '0', hexDigit (c.toNat / 16), hexDigit (c.toNat % 16)]
  else [c]

/-- A text between quotes. -/
def quote (s : String) : List Char := '"' :: s.toList.flatMap quoteChar ++ ['"']

end ImportAtlas.Json
