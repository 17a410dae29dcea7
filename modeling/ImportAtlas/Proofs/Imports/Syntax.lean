-- SUMMARY: Python modules as trees of statements: how they are written, and what they import.
import ImportAtlas.Imports.Scan
import ImportAtlas.Proofs.Imports.Source

/-! # Written modules

A module is a block of logical lines. A line holds simple statements, which semicolons join, or the head
of a clause with its statements behind the colon, or only the head, and then the clause has a block of its
own that is indented further. Of statements only imports are told apart; what any other statement says is
code.

`Module.text` is how a module is written, `Module.imports` is what it imports, and `Module.valid` says
that it is a module: lines are indented by Python's rule, code is valid, and only an import begins with
the words of one. -/

namespace ImportAtlas.Imports

/-! ## Names -/

/-- The reserved words. -/
def keywords : List String :=
  ["False", "None", "True", "and", "as", "assert", "async", "await", "break", "class", "continue", "def",
    "del", "elif", "else", "except", "finally", "for", "from", "global", "if", "import", "in", "is",
    "lambda", "nonlocal", "not", "or", "pass", "raise", "return", "try", "while", "with", "yield"]

structure Name where
  letters : List Char
  nonempty : letters.isEmpty = false := by decide
  isWord : letters.all isWordChar = true := by decide
  free : keywords.contains (String.ofList letters) = false := by decide

def Name.text (n : Name) : String := String.ofList n.letters

/-- A further name in a dotted name, with the blanks around its dot. -/
structure Part where
  before : List Blank
  after : List Blank
  name : Name

/-- A dotted name. Only blanks may stand inside of it. -/
structure Dotted where
  first : Name
  more : List Part

/-- A gap of blanks. -/
def blanks (bs : List Blank) : Gap := bs.map .blank

namespace Dotted

/-- The names with dots between them. -/
def text (d : Dotted) : String := d.first.text ++ String.join (d.more.map fun p => "." ++ p.name.text)

/-- A name and further ones, with a gap behind them, in front of other code. -/
def chain (n : Name) : List Part → Gap → Code → Code
  | [], gap, k => .word n.letters gap k
  | p :: ps, gap, k => .word n.letters (blanks p.before) (.sign '.' (blanks p.after) (chain p.name ps gap k))

def code (d : Dotted) (gap : Gap) (k : Code) : Code := chain d.first d.more gap k

end Dotted

/-! ## Imports -/

structure Alias where
  /-- what stands behind the word `as` -/
  gap : Gap
  name : Name
  behind : Gap

def Alias.code (a : Alias) (k : Code) : Code := .word ['a', 's'] a.gap (.word a.name.letters a.behind k)

/-- One of the names that are imported. -/
structure Entry where
  name : Dotted
  behind : Gap
  alias? : Option Alias

def Entry.code (e : Entry) (k : Code) : Code := e.name.code e.behind (e.alias?.elim k (·.code k))

/-- A comma, what stands behind it, and a further name. -/
structure Further where
  gap : Gap
  entry : Entry

structure Listing where
  first : Entry
  more : List Further

namespace Listing

def entries (l : Listing) : List Entry := l.first :: l.more.map (·.entry)

/-- The names, without their aliases. -/
def names (l : Listing) : List String := l.entries.map (·.name.text)

def tail : List Further → Code → Code
  | [], k => k
  | f :: fs, k => .sign ',' f.gap (f.entry.code (tail fs k))

def code (l : Listing) (k : Code) : Code := l.first.code (tail l.more k)

end Listing

/-- What is imported from a module. -/
inductive Target where
  | names (l : Listing)
  /-- names in brackets, with another comma behind the last one or not -/
  | group (lead : Gap) (l : Listing) (comma : Option Gap) (behind : Gap)
  | all (behind : Gap)

namespace Target

def code (k : Code) : Target → Code
  | names l => l.code k
  | group lead l comma behind =>
    .bracket .round lead (l.code (comma.elim .nil (.sign ',' · .nil))) behind k
  | all behind => .sign '*' behind k

def words : Target → List String
  | names l => l.names
  | group _ l _ _ => l.names
  | all _ => ["*"]

/-- Whether the names are not dotted. -/
def isPlain : Target → Bool
  | names l => l.entries.all (·.name.more.isEmpty)
  | group _ l _ _ => l.entries.all (·.name.more.isEmpty)
  | all _ => true

end Target

/-- The module that something is imported from. -/
inductive Base where
  | absolute (m : Dotted) (behind : Gap)
  /-- a module by its place: one or more dots, each with a gap behind it, and a name or not -/
  | relative (dot : Gap) (dots : List Gap) (m : Option (Dotted × Gap))

namespace Base

def dotsCode : List Gap → Code → Code
  | [], k => k
  | gap :: gaps, k => .sign '.' gap (dotsCode gaps k)

def code (k : Code) : Base → Code
  | absolute m behind => m.code behind k
  | relative dot dots m => dotsCode (dot :: dots) (m.elim k fun x => x.1.code x.2 k)

end Base

/-! ## Statements -/

/-- The words that begin a clause of a compound statement. -/
def clauseWords : List String :=
  ["if", "elif", "else", "for", "while", "try", "except", "finally", "with", "def", "class", "async"]

/-- The words that begin an import. -/
def importWords : List String := ["import", "from"]

namespace Code

def append : Code → Code → Code
  | .nil, k => k
  | .word w gap rest, k => .word w gap (rest.append k)
  | .sign c gap rest, k => .sign c gap (rest.append k)
  | .bracket b lead inner gap rest, k => .bracket b lead inner gap (rest.append k)
  | .literal v body gap rest, k => .literal v body gap (rest.append k)

/-- Whether code begins with one of some words. -/
def opens (ws : List String) : Code → Bool
  | .word w _ _ => ws.contains (String.ofList w)
  | _ => false

def isNil : Code → Bool
  | .nil => true
  | _ => false

/-- Whether code has no semicolon outside brackets, and no import behind a colon there. -/
def isCalm : Code → Bool
  | .nil => true
  | .sign c _ rest => c != ';' && (c != ':' || !rest.opens importWords) && rest.isCalm
  | .word _ _ rest => rest.isCalm
  | .bracket _ _ _ _ rest => rest.isCalm
  | .literal _ _ _ rest => rest.isCalm

end Code

/-- A simple statement. -/
inductive Statement where
  | names (gap : Gap) (l : Listing)
  | members (gap : Gap) (base : Base) (behind : Gap) (target : Target)
  | other (c : Code)

namespace Statement

/-- The statement in front of other code. -/
def code (k : Code) : Statement → Code
  | names gap l => .word ['i', 'm', 'p', 'o', 'r', 't'] gap (l.code k)
  | members gap base behind target =>
    .word ['f', 'r', 'o', 'm'] gap (base.code (.word ['i', 'm', 'p', 'o', 'r', 't'] behind (target.code k)))
  | other c => c.append k

/-- The addresses that the statement imports: dotted names, or names below a module. A relative import
has none. -/
def addresses : Statement → List String
  | names _ l => l.names
  | members _ (.absolute m _) _ target => target.words.map fun n => m.text ++ "." ++ n
  | members _ (.relative _ _ _) _ _ => []
  | other _ => []

def valid : Statement → Bool
  | names _ _ => true
  | members _ _ _ target => target.isPlain
  | other c => !c.isNil && !c.opens (importWords ++ clauseWords) && c.isCalm

end Statement

/-- The simple statements of one line. -/
inductive Suite where
  | last (s : Statement)
  /-- one that a semicolon ends -/
  | closed (s : Statement) (gap : Gap)
  | more (s : Statement) (gap : Gap) (rest : Suite)

namespace Suite

def code : Suite → Code
  | last s => s.code .nil
  | closed s gap => s.code (.sign ';' gap .nil)
  | more s gap rest => s.code (.sign ';' gap rest.code)

def addresses : Suite → List String
  | last s => s.addresses
  | closed s _ => s.addresses
  | more s _ rest => s.addresses ++ rest.addresses

def valid : Suite → Bool
  | last s => s.valid
  | closed s _ => s.valid
  | more s _ rest => s.valid && rest.valid

end Suite

/-- The head of a clause: its word, the code up to the colon, and what stands behind the colon. -/
structure Head where
  word : List Char
  gap : Gap
  subject : Code
  behind : Gap

namespace Head

def code (h : Head) (k : Code) : Code := .word h.word h.gap (h.subject.append (.sign ':' h.behind k))

def valid (h : Head) : Bool := clauseWords.contains (String.ofList h.word) && h.subject.isCalm

end Head

/-! ## Lines -/

/-- A comment, if there is one. -/
def remarkText (remark : Option (List Char)) : List Char := remark.elim [] ('#' :: ·)

def remarkFits (remark : Option (List Char)) : Bool := remark.all (!·.contains '\n')

/-- A line without code. -/
structure BlankLine where
  blanks : List Blank
  remark : Option (List Char)

def BlankLine.text (l : BlankLine) : List Char := l.blanks.map Blank.char ++ remarkText l.remark

/-- What stands in front of the code of a line, and the comment behind it. -/
structure Setting where
  above : List BlankLine
  /-- blanks and joins -/
  margin : Gap
  remark : Option (List Char)

/-- The column to which a margin leads, from a column in the first line and the one that was settled by a
backslash, or 0. A tab leads to the next multiple of 8 and a form feed to the start of the line. -/
def columnFrom (column settled : Nat) : Gap → Nat
  | [] => if settled = 0 then column else settled
  | .blank .space :: gap => columnFrom (column + 1) settled gap
  | .blank .tab :: gap => columnFrom ((column / 8 + 1) * 8) settled gap
  | .blank .feed :: gap => columnFrom 0 settled gap
  | _ :: gap => columnFrom column (if settled = 0 then column else settled) gap

namespace Setting

def column (f : Setting) : Nat := columnFrom 0 0 f.margin

/-- The lines above and the line itself. -/
def lines (f : Setting) (c : Code) : List (List Char) :=
  f.above.map BlankLine.text ++ [f.margin.text ++ c.text ++ remarkText f.remark]

def fits (f : Setting) (c : Code) : Bool :=
  f.above.all (remarkFits ·.remark) && f.margin.fits .line && remarkFits f.remark && c.fits .line

end Setting

/-! ## Blocks -/

/-- Logical lines that begin in the same column, and what is nested in them. -/
inductive Block where
  | nil
  | line (f : Setting) (s : Suite) (rest : Block)
  /-- a clause with its statements on the same line -/
  | clause (f : Setting) (h : Head) (s : Suite) (rest : Block)
  /-- a clause with a block -/
  | nest (f : Setting) (h : Head) (body : Block) (rest : Block)

namespace Block

def lines : Block → List (List Char)
  | nil => []
  | line f s rest => f.lines s.code ++ rest.lines
  | clause f h s rest => f.lines (h.code s.code) ++ rest.lines
  | nest f h body rest => f.lines (h.code .nil) ++ body.lines ++ rest.lines

/-- What is imported, in order; what is nested is conditional. -/
def imports (nested : Bool) : Block → List Import
  | nil => []
  | line _ s rest => s.addresses.map (⟨·, nested⟩) ++ rest.imports nested
  | clause _ _ s rest => s.addresses.map (⟨·, true⟩) ++ rest.imports nested
  | nest _ _ body rest => body.imports true ++ rest.imports nested

/-- The column in which a block begins. -/
def column? : Block → Option Nat
  | nil => none
  | line f _ _ => some f.column
  | clause f _ _ _ => some f.column
  | nest f _ _ _ => some f.column

/-- Whether a block is valid in a column. -/
def valid (column : Nat) : Block → Bool
  | nil => true
  | line f s rest => f.column == column && f.fits s.code && s.valid && rest.valid column
  | clause f h s rest =>
    f.column == column && f.fits (h.code s.code) && h.valid && s.valid && rest.valid column
  | nest f h body rest =>
    f.column == column && f.fits (h.code .nil) && h.valid &&
      body.column?.any (fun inner => column < inner && body.valid inner) && rest.valid column

end Block

/-! ## Modules -/

structure Module where
  block : Block
  /-- the lines without code at the end -/
  below : List BlankLine

namespace Module

def text (m : Module) : List Char :=
  ['\n'].intercalate (m.block.lines ++ m.below.map BlankLine.text)

def imports (m : Module) : List Import := m.block.imports false

def valid (m : Module) : Bool := m.block.valid 0 && m.below.all (remarkFits ·.remark)

end Module

/-- The same text with its lines ended in any of the three ways. -/
inductive Respells : List Char → List Char → Prop where
  | nil : Respells [] []
  | char {c : Char} {t s : List Char} (hline : c ≠ '\n') (hcarriage : c ≠ '\r') (h : Respells t s) :
      Respells (c :: t) (c :: s)
  | feed {t s : List Char} (h : Respells t s) : Respells ('\n' :: t) ('\n' :: s)
  | carriageFeed {t s : List Char} (h : Respells t s) : Respells ('\r' :: '\n' :: t) ('\n' :: s)
  | carriage {t s : List Char} (hfeed : t.head? ≠ some '\n') (h : Respells t s) :
      Respells ('\r' :: t) ('\n' :: s)

/-- A source of a module, with the mark of its encoding in front or without it. -/
inductive Module.Source (m : Module) : List Char → Prop where
  | plain {t : List Char} (h : Respells t m.text) (hmark : t.head? ≠ some '\ufeff') : m.Source t
  | marked {t : List Char} (h : Respells t m.text) : m.Source ('\ufeff' :: t)

end ImportAtlas.Imports
