-- SUMMARY: Cutting Python source into logical lines, one character at a time.
import ImportAtlas.Imports.Token

/-! # Lexer

The lexer is a machine that takes one character after the other, so the lines of a text that is put
together from parts follow from what each part does to the state. Brackets and the replacement fields
of format strings are kept on a stack: as long as one is open, an end of line is white space. -/

namespace ImportAtlas.Imports

/-- How a string literal ends, and whether it has replacement fields. -/
structure Delimiter where
  quote : Char
  triple : Bool := false
  fields : Bool := false
  deriving DecidableEq, Repr

/-- Something that was opened and has to be closed. -/
inductive Frame where
  /-- a bracket of any kind -/
  | bracket
  /-- a replacement field in the text of a string -/
  | field (d : Delimiter)
  /-- a replacement field in the format of another field -/
  | inner (d : Delimiter)
  deriving DecidableEq, Repr

/-- Where in the source the machine stands. -/
inductive Mode where
  /-- before the first token of a logical line; `kept` if white space in front of a backslash has
  settled that the line is indented -/
  | lineStart (kept : Bool)
  /-- behind a backslash in front of the first token of a logical line -/
  | lineJoin
  | code
  | comment
  /-- behind a backslash outside strings -/
  | backslash
  /-- behind the first quote of a literal -/
  | oneQuote (d : Delimiter)
  /-- behind two quotes, which are an empty literal or the start of a long one -/
  | twoQuotes (d : Delimiter)
  /-- in the text of a literal -/
  | text (d : Delimiter)
  /-- behind a backslash in a literal -/
  | escape (d : Delimiter)
  /-- behind one or two of the three quotes that end a long literal -/
  | closing (d : Delimiter) (seen : Nat)
  /-- behind a brace in a literal with fields -/
  | brace (d : Delimiter)
  /-- in the format of a replacement field -/
  | format (d : Delimiter)
  deriving DecidableEq, Repr

structure Lexer where
  mode : Mode := .lineStart false
  stack : List Frame := []
  /-- the letters of the word being read, last first -/
  word : List Char := []
  indented : Bool := false
  /-- the tokens of the line being read, last first -/
  tokens : List Token := []
  /-- the lines that are complete, last first -/
  lines : List Line := []
  deriving DecidableEq, Repr

/-- Letters, digits, the underscore and everything beyond ASCII. -/
def isWordChar (c : Char) : Bool := c.isAlphanum || c == '_' || 128 ≤ c.toNat

def isSpace (c : Char) : Bool := c == ' ' || c == '\t' || c == '\x0c'

/-- The letters that may stand in front of a literal without replacement fields. -/
def plainMarks : List String := ["r", "u", "b", "br", "rb"]

/-- The letters that announce a literal with replacement fields. -/
def fieldMarks : List String := ["f", "fr", "rf", "t", "tr", "rt"]

namespace Lexer

/-- The word read so far. -/
def currentWord (s : Lexer) : String := String.ofList s.word.reverse

def push (s : Lexer) (t : Token) : Lexer := { s with tokens := t :: s.tokens }

/-- End the word being read, if there is one. -/
def endWord (s : Lexer) : Lexer :=
  if s.word.isEmpty then s
  else { s with word := [], tokens := .word s.currentWord :: s.tokens }

/-- End the logical line; a line without tokens leaves no trace. -/
def endLine (s : Lexer) : Lexer :=
  let s := s.endWord
  { s with
    mode := .lineStart false, indented := false, tokens := []
    lines :=
      if s.tokens.isEmpty then s.lines
      else { indented := s.indented, tokens := s.tokens.reverse } :: s.lines }

/-- An end of line in code: white space inside brackets, the end of the logical line outside. -/
def newline (s : Lexer) : Lexer :=
  if s.stack.isEmpty then s.endLine else { s.endWord with mode := .code }

/-- A quote in code begins a literal. A word in front of it that marks the literal belongs to it. -/
def beginLiteral (s : Lexer) (quote : Char) : Lexer :=
  let mark := s.currentWord.toLower
  let fields := fieldMarks.contains mark
  let s := if fields || plainMarks.contains mark then { s with word := [] } else s.endWord
  { s.push .other with mode := .oneQuote { quote, fields } }

/-- A closing bracket ends the innermost bracket; a brace may also end a replacement field. -/
def close (s : Lexer) (c : Char) : Lexer :=
  let s := s.endWord.push .other
  match s.stack with
  | .bracket :: fs => { s with stack := fs }
  | .field d :: fs => if c = '}' then { s with stack := fs, mode := .text d } else s
  | .inner d :: fs => if c = '}' then { s with stack := fs, mode := .format d } else s
  | [] => s

/-- A colon outside brackets is a token; in a replacement field it begins the format. -/
def colon (s : Lexer) : Lexer :=
  let s := s.endWord
  match s.stack with
  | [] => s.push .colon
  | .bracket :: _ => s.push .other
  | .field d :: _ | .inner d :: _ => { s with mode := .format d }

/-- A character outside literals and comments. -/
def code (s : Lexer) (c : Char) : Lexer :=
  let s := { s with mode := .code }
  if isWordChar c then { s with word := c :: s.word }
  else if c = '\n' then s.newline
  else if isSpace c then s.endWord
  else if c = '#' then { s.endWord with mode := .comment }
  else if c = '\\' then { s.endWord with mode := .backslash }
  else if c = '"' ∨ c = '\'' then s.beginLiteral c
  else if c = '(' ∨ c = '[' ∨ c = '{' then
    let s := s.endWord.push .other
    { s with stack := .bracket :: s.stack }
  else if c = ')' ∨ c = ']' ∨ c = '}' then s.close c
  else if c = ':' then s.colon
  else if c = ';' ∧ s.stack.isEmpty then s.endWord.push .semicolon
  else if c = '.' then s.endWord.push .dot
  else if c = ',' then s.endWord.push .comma
  else if c = '*' then s.endWord.push .star
  else s.endWord.push .other

/-- A character in front of the first token of a line. A form feed takes back the white space in front
of it, unless that was settled before. -/
def start (s : Lexer) (kept : Bool) (c : Char) : Lexer :=
  if c = '\n' then { s with mode := .lineStart false, indented := false }
  else if c = '\x0c' then { s with indented := kept }
  else if isSpace c then { s with indented := true }
  else if c = '\\' then { s with mode := .lineJoin }
  else s.code c

/-- A character in the text of a literal. An end of line ends a short literal. -/
def text (s : Lexer) (d : Delimiter) (c : Char) : Lexer :=
  if c = d.quote then { s with mode := if d.triple then .closing d 1 else .code }
  else if c = '\\' then { s with mode := .escape d }
  else if c = '{' ∧ d.fields then { s with mode := .brace d }
  else if c = '\n' ∧ !d.triple then s.newline
  else { s with mode := .text d }

/-- A character in the format of a replacement field. -/
def format (s : Lexer) (d : Delimiter) (c : Char) : Lexer :=
  if c = '{' then { s with stack := .inner d :: s.stack, mode := .code }
  else if c = '}' then s.close c
  else s

/-- Take one character. -/
def step (s : Lexer) (c : Char) : Lexer :=
  match s.mode with
  | .lineStart kept => s.start kept c
  | .lineJoin =>
    if c = '\n' then { s with mode := .lineStart s.indented }
    else { s.push .other with mode := .code }.code c
  | .code => s.code c
  | .comment => if c = '\n' then s.newline else s
  | .backslash =>
    if c = '\n' then { s.push .join with mode := .code } else { s.push .other with mode := .code }.code c
  | .oneQuote d => if c = d.quote then { s with mode := .twoQuotes d } else s.text d c
  | .twoQuotes d =>
    if c = d.quote then { s with mode := .text { d with triple := true } } else s.code c
  | .text d => s.text d c
  | .escape d => if c = '{' ∧ d.fields then { s with mode := .brace d } else { s with mode := .text d }
  | .closing d seen =>
    if c = d.quote then { s with mode := if seen = 2 then .code else .closing d (seen + 1) }
    else s.text d c
  | .brace d =>
    if c = '{' then { s with mode := .text d }
    else { s with stack := .field d :: s.stack }.code c
  | .format d => s.format d c

/-- All logical lines, when the source has come to its end. -/
def finish (s : Lexer) : List Line := s.endLine.lines.reverse

end Lexer

/-- Every kind of line end as a single line feed. -/
def unifyLineEnds : List Char → List Char
  | '\r' :: '\n' :: cs => '\n' :: unifyLineEnds cs
  | '\r' :: cs => '\n' :: unifyLineEnds cs
  | c :: cs => c :: unifyLineEnds cs
  | [] => []

/-- A source without the mark that may stand at its very start. -/
def dropByteOrderMark : List Char → List Char
  | '\ufeff' :: cs => cs
  | cs => cs

/-- The logical lines of a source. -/
def logicalLines (source : List Char) : List Line :=
  ((unifyLineEnds (dropByteOrderMark source)).foldl Lexer.step {}).finish

end ImportAtlas.Imports
