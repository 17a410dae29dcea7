-- SUMMARY: The imports of a Python source: absolute addresses in source order, and whether each is conditional.
import ImportAtlas.Imports.Lexer

/-! # Imports

A statement begins where a logical line begins, behind a semicolon, and behind a colon: `import` and
`from` are reserved words, so behind a colon they can only begin a statement that stands on the line
of its head. Relative imports name no address and are left out. -/

namespace ImportAtlas.Imports

/-- One imported name. -/
structure Import where
  /-- the dotted name, below its module for a name imported from one -/
  address : String
  /-- whether the statement is part of another statement, such as `if`, `try` or `def` -/
  conditional : Bool
  deriving DecidableEq, Repr

/-- The words that begin a compound statement or one of its clauses. -/
def headWords : List String :=
  ["if", "elif", "else", "for", "while", "try", "except", "finally", "with", "def", "class", "async"]

/-- Tokens cut at those that satisfy `p`, which are dropped. -/
def cut (p : Token → Bool) : List Token → List (List Token)
  | [] => [[]]
  | t :: ts =>
    if p t then [] :: cut p ts
    else match cut p ts with
      | [] => [[t]]
      | seg :: segs => (t :: seg) :: segs

/-- The statements of a logical line. -/
def statements (l : Line) : List (List Token) :=
  cut (fun t => t == .semicolon || t == .colon) l.tokens

/-- A line whose statements are part of another statement. -/
def Line.isNested (l : Line) : Bool :=
  l.indented ||
    match l.tokens with
    | .word w :: _ => headWords.contains w
    | _ => false

def Token.text : Token → String
  | .word s => s
  | .dot => "."
  | .star => "*"
  | .join => "\\"
  | _ => ""

/-- Tokens without the joins at both ends. -/
def trimJoins (ts : List Token) : List Token :=
  ((ts.dropWhile (· == .join)).reverse.dropWhile (· == .join)).reverse

/-- The dotted name that tokens spell. A join inside the name stays. -/
def dottedName (ts : List Token) : String := String.join ((trimJoins ts).map Token.text)

/-- The names of an import list, without their aliases. -/
def importedNames (ts : List Token) : List String :=
  let entries := cut (· == .comma) (ts.filter (· != .other))
  let names := entries.map fun e => dottedName (e.takeWhile (· != .word "as"))
  names.filter (· != "")

/-- The addresses that a statement imports. -/
def addresses (statement : List Token) : List String :=
  match statement.dropWhile (· == .join) with
  | .word "import" :: ts => importedNames ts
  | .word "from" :: ts =>
    let base := trimJoins (ts.takeWhile (· != .word "import"))
    match base with
    | .word _ :: _ =>
      let names := importedNames ((ts.dropWhile (· != .word "import")).drop 1)
      names.map fun n => dottedName base ++ "." ++ n
    | _ => []
  | _ => []

/-- The imports of a logical line. -/
def Line.imports (l : Line) : List Import :=
  (statements l).flatMap fun s => (addresses s).map fun a => ⟨a, l.isNested⟩

/-- The imports of a source, in order. -/
def scan (source : String) : List Import := (logicalLines source.toList).flatMap Line.imports

end ImportAtlas.Imports
