-- SUMMARY: Code as it is written: words, signs, brackets and literals, each with what stands behind it.
import ImportAtlas.Imports.Lexer

/-! # Written code

Code is a sequence of lexemes. Every lexeme carries the gap behind it: blanks, lines that a backslash
joins and, inside brackets, ends of lines and comments. A literal is a text between quotes, in which
backslashes escape what follows them and which may hold replacement fields, with code of their own and a
format in which there may be fields again.

`text` is how code is written. `fits` says that it is written validly: a gap has only what may stand
there, a text does not hold what would end it, and two lexemes touch only where they stay apart. -/

namespace ImportAtlas.Imports

/-! ## Gaps -/

inductive Blank where
  | space
  | tab
  | feed
  deriving DecidableEq

def Blank.char : Blank → Char
  | space => ' '
  | tab => '\t'
  | feed => '\x0c'

/-- Where code stands. -/
inductive Place where
  /-- outside brackets, where the end of the line ends it -/
  | line
  | bracket
  /-- in a replacement field, where a colon ends it -/
  | field
  deriving DecidableEq

/-- Part of what stands between two lexemes. -/
inductive Filler where
  | blank (b : Blank)
  /-- a backslash that joins a line with the next one -/
  | join
  | lineEnd
  /-- a comment up to the end of its line -/
  | comment (remark : List Char)

namespace Filler

def text : Filler → List Char
  | blank b => [b.char]
  | join => ['\\', '\n']
  | lineEnd => ['\n']
  | comment remark => '#' :: remark ++ ['\n']

def fits (p : Place) : Filler → Bool
  | blank _ => true
  | join => true
  | lineEnd => p != .line
  | comment remark => p != .line && !remark.contains '\n'

end Filler

abbrev Gap := List Filler

namespace Gap

def text (gap : Gap) : List Char := gap.flatMap Filler.text

def fits (p : Place) (gap : Gap) : Bool := gap.all (·.fits p)

end Gap

/-! ## Lexemes -/

inductive Bracket where
  | round
  | square
  | curly
  deriving DecidableEq

namespace Bracket

def left : Bracket → Char
  | round => '('
  | square => '['
  | curly => '{'

def right : Bracket → Char
  | round => ')'
  | square => ']'
  | curly => '}'

end Bracket

inductive Quote where
  | single
  | double
  deriving DecidableEq

def Quote.char : Quote → Char
  | single => '\''
  | double => '"'

/-- The marks in front of a literal that is plain text, in lower case. -/
def textMarks : List (List Char) := [['r'], ['u'], ['b'], ['b', 'r'], ['r', 'b']]

/-- The marks in front of a literal with replacement fields, in lower case. -/
def templateMarks : List (List Char) :=
  [['f'], ['f', 'r'], ['r', 'f'], ['t'], ['t', 'r'], ['r', 't']]

/-- The characters of operators and of punctuation. -/
def signs : List Char :=
  ['+', '-', '*', '/', '%', '@', '&', '|', '^', '~', '<', '>', '=', '!', '.', ',', ':', ';']

/-- What stands around a literal: the mark in front of it and its quotes. -/
structure Cover where
  mark : List Char
  quote : Quote
  /-- whether there are three quotes on each side -/
  long : Bool

namespace Cover

/-- Whether the literal has replacement fields. -/
def template (v : Cover) : Bool := templateMarks.contains (v.mark.map Char.toLower)

def fits (v : Cover) : Bool :=
  v.mark.isEmpty || textMarks.contains (v.mark.map Char.toLower) || v.template

/-- The quotes on one side. -/
def quotes (v : Cover) : List Char := List.replicate (if v.long then 3 else 1) v.quote.char

end Cover

mutual

inductive Code where
  | nil
  | word (w : List Char) (gap : Gap) (rest : Code)
  | sign (c : Char) (gap : Gap) (rest : Code)
  | bracket (b : Bracket) (lead : Gap) (inner : Code) (gap : Gap) (rest : Code)
  | literal (v : Cover) (body : Text) (gap : Gap) (rest : Code)

/-- The text of a literal, or of the format of a replacement field. -/
inductive Text where
  | nil
  | char (c : Char) (rest : Text)
  /-- a quote that does not end the literal -/
  | quote (q : Quote) (rest : Text)
  /-- a backslash and what it escapes -/
  | escape (c : Char) (rest : Text)
  /-- a brace that is written twice; a backslash in front of a brace escapes nothing -/
  | brace (slash : Bool) (rest : Text)
  | field (slash : Bool) (lead : Gap) (code : Code) (rest : Text)
  /-- a field with a format -/
  | formatted (slash : Bool) (lead : Gap) (code : Code) (format : Text) (rest : Text)

end

/-- A backslash, if there is one. -/
def slashText (slash : Bool) : List Char := if slash then ['\\'] else []

mutual

def Code.text : Code → List Char
  | .nil => []
  | .word w gap rest => w ++ gap.text ++ rest.text
  | .sign c gap rest => c :: gap.text ++ rest.text
  | .bracket b lead inner gap rest =>
    b.left :: lead.text ++ inner.text ++ b.right :: gap.text ++ rest.text
  | .literal v body gap rest => v.mark ++ v.quotes ++ body.text ++ v.quotes ++ gap.text ++ rest.text

def Text.text : Text → List Char
  | .nil => []
  | .char c rest => c :: rest.text
  | .quote q rest => q.char :: rest.text
  | .escape c rest => '\\' :: c :: rest.text
  | .brace slash rest => slashText slash ++ '{' :: '{' :: rest.text
  | .field slash lead code rest =>
    slashText slash ++ '{' :: lead.text ++ code.text ++ '}' :: rest.text
  | .formatted slash lead code format rest =>
    slashText slash ++ '{' :: lead.text ++ code.text ++ ':' :: format.text ++ '}' :: rest.text

end

/-! ## Validity -/

/-- Whether a sign may stand in a place. -/
def Place.allows (p : Place) (c : Char) : Bool :=
  signs.contains c && (c != ':' || p != .field) && (c != ';' || p == .line)

/-- Whether a word ends in front of some text: it does not go on there, and it is no mark of a literal
that begins there. -/
def wordEnds (w next : List Char) : Bool :=
  match next.head? with
  | none => true
  | some c =>
    !isWordChar c &&
      ((c != '\'' && c != '"') ||
        !(textMarks ++ templateMarks).contains (w.map Char.toLower))

/-- Whether a literal ends in front of some text: two quotes in front of a third one do not. -/
def Cover.ends (v : Cover) (bare : Bool) (next : List Char) : Bool :=
  v.long || !bare || next.head? != some v.quote.char

/-- Where the text of a literal stands. -/
inductive Host where
  /-- between quotes, behind some quotes of a long literal -/
  | cover (v : Cover) (seen : Nat)
  /-- in the format of a field -/
  | format

namespace Host

def again : Host → Host
  | cover v _ => cover v 0
  | format => format

/-- Whether there may be fields, with a backslash in front or without. -/
def allowsField (slash : Bool) : Host → Bool
  | cover v _ => v.template
  | format => !slash

def allowsChar (c : Char) : Host → Bool
  | cover v _ =>
    c != v.quote.char && c != '\\' && (!v.template || c != '{') && (v.long || c != '\n')
  | format => c != '{' && c != '}'

def allowsQuote (q : Quote) : Host → Bool
  | cover v seen => v.long && v.quote == q && seen < 2
  | format => false

def allowsEscape (c : Char) : Host → Bool
  | cover v _ => !v.template || c != '{'
  | format => false

def allowsBrace : Host → Bool
  | cover v _ => v.template
  | format => false

def allowsEnd : Host → Bool
  | cover _ seen => seen == 0
  | format => true

def afterQuote : Host → Host
  | cover v seen => cover v (seen + 1)
  | format => format

end Host

/-- Whether a field may begin with some text: a second brace makes no field. -/
def fieldBegins (lead : Gap) (code : Code) : Bool := (lead.text ++ code.text).head? != some '{'

def Text.isNil : Text → Bool
  | .nil => true
  | _ => false

mutual

def Code.fits (p : Place) : Code → Bool
  | .nil => true
  | .word w gap rest =>
    !w.isEmpty && w.all isWordChar && wordEnds w (gap.text ++ rest.text) && gap.fits p && rest.fits p
  | .sign c gap rest => p.allows c && gap.fits p && rest.fits p
  | .bracket _ lead inner gap rest =>
    lead.fits .bracket && inner.fits .bracket && gap.fits p && rest.fits p
  | .literal v body gap rest =>
    v.fits && body.fits (.cover v 0) && v.ends body.isNil (gap.text ++ rest.text) && gap.fits p &&
      rest.fits p

def Text.fits (h : Host) : Text → Bool
  | .nil => h.allowsEnd
  | .char c rest => h.allowsChar c && rest.fits h.again
  | .quote q rest => h.allowsQuote q && rest.fits h.afterQuote
  | .escape c rest => h.allowsEscape c && rest.fits h.again
  | .brace _ rest => h.allowsBrace && rest.fits h.again
  | .field slash lead code rest =>
    h.allowsField slash && fieldBegins lead code && lead.fits .field && code.fits .field &&
      rest.fits h.again
  | .formatted slash lead code format rest =>
    h.allowsField slash && fieldBegins lead code && lead.fits .field && code.fits .field &&
      format.fits .format && rest.fits h.again

end

end ImportAtlas.Imports
