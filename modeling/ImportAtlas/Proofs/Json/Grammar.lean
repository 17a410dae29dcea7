-- SUMMARY: The grammar of JSON texts, as a relation between a text, the tree it spells and the text behind it.
import ImportAtlas.Json.Tree

/-! # The grammar of JSON

`Spells s φ r` says that the text `s` is a spelling of `φ` followed by the text `r`. The rules are those
of the JSON grammar, one constructor for each production, and they know nothing of readers: how far
to look ahead, what to report and how deep to go are no part of them. A number may stop at any of its
digits here; where it has to stop is settled by what may stand behind a value.

A tree keeps a string as its pieces and a number as its digits, so that it says which surrogates stand
alone and which numbers are too large. -/

namespace ImportAtlas.Json

-- ---------------------------------------------------------------------------
-- Blanks, strings and numbers
-- ---------------------------------------------------------------------------

/-- Blanks, then `r`. -/
inductive Blanks : List Char → List Char → Prop where
  | nil {r} : Blanks r r
  | cons {c s r} (hc : isBlank c = true) (hs : Blanks s r) : Blanks (c :: s) r

/-- One piece of a string, then `r`. -/
inductive Piece.Spelled : List Char → Piece → List Char → Prop where
  | plain {c r} (hquote : c ≠ '"') (hbackslash : c ≠ '\\') (hcontrol : isControl c = false) :
      Spelled (c :: r) (.char c) r
  | escape {e c r} (he : escaped? e = some c) : Spelled ('\\' :: e :: r) (.char c) r
  | unit {a b c d r} {w x y z : Nat} (ha : hexValue? a = some w) (hb : hexValue? b = some x)
      (hc : hexValue? c = some y) (hd : hexValue? d = some z) :
      Spelled ('\\' :: 'u' :: a :: b :: c :: d :: r) (.unit (((w * 16 + x) * 16 + y) * 16 + z)) r

/-- The pieces of a string, one after the other, then `r`. -/
inductive Pieces : List Char → List Piece → List Char → Prop where
  | nil {r} : Pieces r [] r
  | cons {s p s₁ ps r} (hp : Piece.Spelled s p s₁) (hps : Pieces s₁ ps r) : Pieces s (p :: ps) r

/-- A string between its quotes, then `r`. -/
def Quoted (s : List Char) (ps : List Piece) (r : List Char) : Prop :=
  ∃ s₁, s = '"' :: s₁ ∧ Pieces s₁ ps ('"' :: r)

def AllDigits (ds : List Char) : Prop := ∀ d ∈ ds, isDigit d = true

/-- The digits in front of the point: a zero, or digits of which the first is none. -/
def IsWhole (ds : List Char) : Prop := ds = ['0'] ∨ ds ≠ [] ∧ ds.head? ≠ some '0' ∧ AllDigits ds

/-- The point and the digits behind it, or nothing, then `r`. -/
inductive Fraction : List Char → List Char → List Char → Prop where
  | absent {r} : Fraction r [] r
  | present {ds r} (hne : ds ≠ []) (hds : AllDigits ds) : Fraction ('.' :: ds ++ r) ds r

/-- The sign of an exponent. -/
inductive ExponentSign : List Char → Bool → Prop where
  | none : ExponentSign [] false
  | plus : ExponentSign ['+'] false
  | minus : ExponentSign ['-'] true

inductive Exponent : List Char → Option (Bool × List Char) → List Char → Prop where
  | absent {r} : Exponent r none r
  | present {e sign negative ds r} (he : e = 'e' ∨ e = 'E') (hsign : ExponentSign sign negative)
      (hne : ds ≠ []) (hds : AllDigits ds) : Exponent (e :: sign ++ ds ++ r) (some (negative, ds)) r

/-- A number, then `r`. -/
def Numeral (s : List Char) (n : Number) (r : List Char) : Prop :=
  IsWhole n.whole ∧ ∃ s₁ s₂, s = (if n.negative then ['-'] else []) ++ n.whole ++ s₁ ∧
    Fraction s₁ n.fraction s₂ ∧ Exponent s₂ n.exponent r

-- ---------------------------------------------------------------------------
-- Values
-- ---------------------------------------------------------------------------

/-- What a part of a text can be. -/
inductive Phrase where
  | value (t : Tree)
  /-- a value with the blanks around it -/
  | element (t : Tree)
  /-- one or more elements with commas in between -/
  | elements (ts : List Tree)
  /-- a key, a colon and an element -/
  | member (k : List Piece) (t : Tree)
  /-- one or more members with commas in between -/
  | members (es : List (List Piece × Tree))

inductive Spells : List Char → Phrase → List Char → Prop where
  | null {r} : Spells ('n' :: 'u' :: 'l' :: 'l' :: r) (.value .null) r
  | true {r} : Spells ('t' :: 'r' :: 'u' :: 'e' :: r) (.value (.bool true)) r
  | false {r} : Spells ('f' :: 'a' :: 'l' :: 's' :: 'e' :: r) (.value (.bool false)) r
  | number {s n r} (hn : Numeral s n r) : Spells s (.value (.number n)) r
  | string {s ps r} (hs : Quoted s ps r) : Spells s (.value (.string ps)) r
  | emptyArray {s r} (hs : Blanks s (']' :: r)) : Spells ('[' :: s) (.value (.array [])) r
  | array {s ts r} (hs : Spells s (.elements ts) (']' :: r)) : Spells ('[' :: s) (.value (.array ts)) r
  | emptyObject {s r} (hs : Blanks s ('}' :: r)) : Spells ('{' :: s) (.value (.object [])) r
  | object {s es r} (hs : Spells s (.members es) ('}' :: r)) :
      Spells ('{' :: s) (.value (.object es)) r
  | element {s s₁ t s₂ r} (hbefore : Blanks s s₁) (ht : Spells s₁ (.value t) s₂)
      (hafter : Blanks s₂ r) : Spells s (.element t) r
  | lastElement {s t r} (ht : Spells s (.element t) r) : Spells s (.elements [t]) r
  | moreElements {s t s₁ ts r} (ht : Spells s (.element t) (',' :: s₁))
      (hts : Spells s₁ (.elements ts) r) : Spells s (.elements (t :: ts)) r
  | member {s s₁ k s₂ s₃ t r} (hbefore : Blanks s s₁) (hk : Quoted s₁ k s₂)
      (hcolon : Blanks s₂ (':' :: s₃)) (ht : Spells s₃ (.element t) r) : Spells s (.member k t) r
  | lastMember {s k t r} (ht : Spells s (.member k t) r) : Spells s (.members [(k, t)]) r
  | moreMembers {s k t s₁ es r} (ht : Spells s (.member k t) (',' :: s₁))
      (hes : Spells s₁ (.members es) r) : Spells s (.members ((k, t) :: es)) r

/-- The whole text is one JSON value with blanks around it. -/
def Document (text : String) (t : Tree) : Prop := Spells text.toList (.element t) []

-- ---------------------------------------------------------------------------
-- Blanks
-- ---------------------------------------------------------------------------

namespace Blanks

variable {s r : List Char}

theorem dropBlanks (s : List Char) : Blanks s (dropBlanks s) := by
  induction s with
  | nil => exact .nil
  | cons c s ih =>
    cases hc : isBlank c with
    | false =>
      rw [Json.dropBlanks, List.dropWhile_cons, hc]
      exact .nil
    | true =>
      rw [Json.dropBlanks, List.dropWhile_cons, hc]
      exact .cons hc ih

theorem dropBlanks_eq (h : Blanks s r) : Json.dropBlanks s = Json.dropBlanks r := by
  induction h with
  | nil => rfl
  | cons hc _ ih => rw [Json.dropBlanks, List.dropWhile_cons, hc, if_pos rfl, ← Json.dropBlanks, ih]

theorem trans {s₁ : List Char} (h : Blanks s s₁) (h₁ : Blanks s₁ r) : Blanks s r := by
  induction h with
  | nil => exact h₁
  | cons hc _ ih => exact .cons hc (ih h₁)

end Blanks

end ImportAtlas.Json
