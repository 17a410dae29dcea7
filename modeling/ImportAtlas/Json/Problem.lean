-- SUMMARY: What can be wrong with a JSON text, where it is found and how it is worded.

/-! # Problems

A reader stops at the first problem it meets in reading order. The problem names its cause and the
place; the cause belongs to one of three categories: the text ended too early, it is not JSON, or it
is JSON of the wrong shape. -/

namespace ImportAtlas.Json

/-- The three ways in which a text can fail. -/
inductive Category where
  /-- the text ends inside a value -/
  | cutOff
  /-- the text is not JSON -/
  | grammar
  /-- the text is JSON of the wrong shape -/
  | shape
  deriving DecidableEq, Repr

inductive Cause where
  | endInArray | endInObject | endInString | endInValue
  | expectedColon | expectedItemOrEnd | expectedEntryOrEnd | expectedWord | expectedValue
  | invalidEscape | invalidNumber | numberOutOfRange | controlCharacter | keyNotText
  | loneSurrogate | halfEscape | trailingComma | trailingText | tooDeep
  /-- a value of one kind where another is wanted -/
  | wrongKind (found expected : String)
  | missingField (name : String)
  | repeatedField (name : String)
  | unknownVariant (name : String) (known : List String)
  /-- an array that ends before the item with this index -/
  | tooFewItems (index : Nat) (expected : String)
  /-- a link end that is neither an id nor an object with one -/
  | noEndpoint
  deriving DecidableEq, Repr

namespace Cause

def category : Cause → Category
  | endInArray | endInObject | endInString | endInValue => .cutOff
  | wrongKind .. | missingField _ | repeatedField _ | unknownVariant .. | tooFewItems ..
  | noEndpoint => .shape
  | _ => .grammar

/-- A name between back quotes. -/
def quoted (name : String) : String := "`" ++ name ++ "`"

def message : Cause → String
  | endInArray => "EOF while parsing a list"
  | endInObject => "EOF while parsing an object"
  | endInString => "EOF while parsing a string"
  | endInValue => "EOF while parsing a value"
  | expectedColon => "expected `:`"
  | expectedItemOrEnd => "expected `,` or `]`"
  | expectedEntryOrEnd => "expected `,` or `\x7d`"
  | expectedWord => "expected ident"
  | expectedValue => "expected value"
  | invalidEscape => "invalid escape"
  | invalidNumber => "invalid number"
  | numberOutOfRange => "number out of range"
  | controlCharacter => "control character (\\u0000-\\u001F) found while parsing a string"
  | keyNotText => "key must be a string"
  | loneSurrogate => "lone leading surrogate in hex escape"
  | halfEscape => "unexpected end of hex escape"
  | trailingComma => "trailing comma"
  | trailingText => "trailing characters"
  | tooDeep => "recursion limit exceeded"
  | wrongKind found expected => "invalid type: " ++ found ++ ", expected " ++ expected
  | missingField name => "missing field " ++ quoted name
  | repeatedField name => "duplicate field " ++ quoted name
  | unknownVariant name known =>
    "unknown variant " ++ quoted name ++ ", expected one of " ++
      ", ".intercalate (known.map quoted)
  | tooFewItems index expected =>
    "invalid length " ++ toString index ++ ", expected " ++ expected
  | noEndpoint => "data did not match any variant of untagged enum RawEndpoint"

end Cause

/-- The number of bytes that characters take in UTF-8. -/
def byteCount (s : List Char) : Nat := s.foldr (fun c n => c.utf8Size + n) 0

/-- A cause, and the number of bytes of the text that lie after the place where it was found. -/
structure Problem where
  cause : Cause
  left : Nat
  deriving DecidableEq, Repr

namespace Problem

/-- A problem found with `rest` unread. -/
def before (cause : Cause) (rest : List Char) : Problem := ⟨cause, byteCount rest⟩

/-- A problem with the next byte of `rest`. -/
def withNext (cause : Cause) (rest : List Char) : Problem := ⟨cause, byteCount rest - 1⟩

def category (p : Problem) : Category := p.cause.category

@[simp] theorem category_before (c : Cause) (r : List Char) : (before c r).category = c.category := rfl

@[simp] theorem category_withNext (c : Cause) (r : List Char) :
    (withNext c r).category = c.category := rfl

/-- Line, from 1, and column, in bytes, reached after `n` bytes of a text, counting on from
`line` and `column`. -/
def placeFrom (line column n : Nat) : List Char → Nat × Nat
  | [] => (line, column)
  | c :: cs =>
    if n = 0 then (line, column)
    else if c = '\n' then placeFrom (line + 1) 0 (n - 1) cs
    else if n < c.utf8Size then (line, column + n)
    else placeFrom line (column + c.utf8Size) (n - c.utf8Size) cs

/-- The line and column of a problem found in `text`. -/
def place (p : Problem) (text : String) : Nat × Nat :=
  placeFrom 1 0 (text.utf8ByteSize - p.left) text.toList

/-- The full wording: the cause and the place. -/
def message (p : Problem) (text : String) : String :=
  let (line, column) := p.place text
  p.cause.message ++ " at line " ++ toString line ++ " column " ++ toString column

end Problem

end ImportAtlas.Json
