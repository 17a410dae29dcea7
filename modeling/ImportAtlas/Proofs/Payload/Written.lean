-- SUMMARY: A printed graph is a document, and its tree.
import ImportAtlas.Payload.Print
import ImportAtlas.Proofs.Json.Yields
import Mathlib.Data.List.Forall2

/-! # Written payloads

The tree that a printed graph spells. Nothing is read here: quotes, indentation and commas are taken
through the grammar rule by rule, for every text that can stand in an id, a name or a folder. -/

namespace ImportAtlas.Payload

open Json

-- ---------------------------------------------------------------------------
-- Quoted text
-- ---------------------------------------------------------------------------

/-- The control characters that have a letter of their own. -/
def hasLetter (c : Char) : Bool := c ∈ ['\x08', '\x0c', '\n', '\r', '\t']

/-- A character as it stands between quotes. -/
def quotePiece (c : Char) : Piece :=
  if isControl c && !hasLetter c then .unit c.toNat else .char c

def quotePieces (s : String) : List Piece := s.toList.map quotePiece

variable {r : List Char}

theorem hexValue?_hexDigit : ∀ n < 16, hexValue? (hexDigit n) = some n := by
  decide

theorem spelled_quoteChar (c : Char) : Piece.Spelled (quoteChar c ++ r) (quotePiece c) r := by
  unfold quoteChar
  -- a quote, a backslash and the control characters that have a letter
  iterate 7
    split
    · next h =>
      subst h
      exact .escape rfl
  next hquote hbackslash hb hf hn hr ht =>
  have hletter : hasLetter c = false := by
    simp [hasLetter, hb, hf, hn, hr, ht]
  split
  · next hcontrol =>
    have hlt : c.toNat < 32 := by simpa [isControl] using hcontrol
    have hpiece : quotePiece c = .unit (((0 * 16 + 0) * 16 + c.toNat / 16) * 16 + c.toNat % 16) := by
      have hvalue : ((0 * 16 + 0) * 16 + c.toNat / 16) * 16 + c.toNat % 16 = c.toNat := by omega
      rw [hvalue, quotePiece, hcontrol, hletter]
      rfl
    rw [hpiece]
    exact .unit rfl rfl (hexValue?_hexDigit _ (by omega)) (hexValue?_hexDigit _ (by omega))
  · next hcontrol =>
    have hcontrol : isControl c = false := by simpa using hcontrol
    rw [quotePiece, hcontrol]
    exact .plain hquote hbackslash hcontrol

theorem pieces_flatMap_quoteChar (cs : List Char) :
    Pieces (cs.flatMap quoteChar ++ r) (cs.map quotePiece) r := by
  induction cs with
  | nil => exact .nil
  | cons c cs ih =>
    rw [List.flatMap_cons, List.append_assoc]
    exact .cons (spelled_quoteChar c) ih

theorem quoted_quote (s : String) : Quoted (quote s ++ r) (quotePieces s) r := by
  refine ⟨s.toList.flatMap quoteChar ++ '"' :: r, ?_, pieces_flatMap_quoteChar s.toList⟩
  simp [quote]

theorem chars?_map_quotePiece (cs : List Char) : Piece.chars? (cs.map quotePiece) = some cs := by
  induction cs with
  | nil => rfl
  | cons c cs ih =>
    rw [List.map_cons, quotePiece]
    split
    · next h =>
      have hlt : c.toNat < 32 := by
        simp only [isControl, Bool.and_eq_true, decide_eq_true_eq] at h
        exact h.1
      have hhigh : isHighSurrogate c.toNat = false := by
        simp [isHighSurrogate]
        omega
      have hlow : isLowSurrogate c.toNat = false := by
        simp [isLowSurrogate]
        omega
      rw [Reader.chars?_unit hhigh hlow, ih, Option.map_some, Char.ofNat_toNat]
    · rw [Reader.chars?_char, ih, Option.map_some]

theorem text?_quotePieces (s : String) : Piece.text? (quotePieces s) = some s := by
  rw [Piece.text?, quotePieces, chars?_map_quotePiece, Option.map_some, String.ofList_toList]

-- ---------------------------------------------------------------------------
-- Values
-- ---------------------------------------------------------------------------

/-- The characters spell the tree, whatever comes behind them. -/
def Written (x : List Char) (t : Tree) : Prop := ∀ r, Spells (x ++ r) (.value t) r

/-- The characters spell a named field. -/
def WrittenField (x : List Char) (f : String × Tree) : Prop := ∃ y, x = field f.1 y ∧ Written y f.2

theorem written_quote (s : String) : Written (quote s) (.string (quotePieces s)) :=
  fun _ => .string (quoted_quote s)

theorem written_printFlag (b : Bool) : Written (printFlag b) (.bool b) := by
  intro r
  cases b with
  | true => exact .true
  | false => exact .false

theorem blanks_newline (depth : Nat) : Blanks (newline depth ++ r) r := by
  have hspaces : ∀ n, Blanks (List.replicate n ' ' ++ r) r := by
    intro n
    induction n with
    | zero => exact .nil
    | succ n ih => exact .cons rfl ih
  exact .cons rfl (hspaces _)

/-- Items between commas, each on a line of its own, up to the closing bracket. -/
def lines (depth : Nat) (x : List Char) (xs : List (List Char)) : List Char :=
  newline (depth + 1) ++ x ++ xs.flatMap (fun y => ',' :: newline (depth + 1) ++ y) ++ newline depth

theorem block_cons {opening closing : Char} {depth : Nat} {x : List Char} {xs : List (List Char)} :
    block opening closing depth (x :: xs) ++ r = opening :: (lines depth x xs ++ closing :: r) := by
  simp [block, lines]

theorem lines_cons {depth : Nat} {x y : List Char} {xs : List (List Char)} :
    lines depth x (y :: xs) ++ r = newline (depth + 1) ++ (x ++ ',' :: (lines depth y xs ++ r)) := by
  simp [lines]

theorem spells_lines_elements {depth : Nat} {x : List Char} {xs : List (List Char)} {t : Tree}
    {ts : List Tree} (hx : Written x t) (hxs : List.Forall₂ Written xs ts) :
    Spells (lines depth x xs ++ ']' :: r) (.elements (t :: ts)) (']' :: r) := by
  induction hxs generalizing x t with
  | nil =>
    have hlast : lines depth x [] ++ ']' :: r =
        newline (depth + 1) ++ (x ++ (newline depth ++ ']' :: r)) := by
      simp [lines]
    rw [hlast]
    exact .lastElement (.element (blanks_newline _) (hx _) (blanks_newline _))
  | cons hy _ ih =>
    rw [lines_cons]
    exact .moreElements (.element (blanks_newline _) (hx _) .nil) (ih hy)

theorem written_array {depth : Nat} {xs : List (List Char)} {ts : List Tree}
    (h : List.Forall₂ Written xs ts) : Written (array depth xs) (.array ts) := by
  intro r
  cases h with
  | nil => exact .emptyArray .nil
  | cons hx hxs =>
    rw [array, block_cons]
    exact .array (spells_lines_elements hx hxs)

/-- The entry that a printed field spells. -/
def entry (f : String × Tree) : List Piece × Tree := (quotePieces f.1, f.2)

/-- The object with these fields, as it is printed. -/
def fieldsTree (fs : List (String × Tree)) : Tree := .object (fs.map entry)

theorem spells_member_field {x s q q' : List Char} {f : String × Tree} (hbefore : Blanks s (x ++ q))
    (hx : WrittenField x f) (hafter : Blanks q q') : Spells s (.member (entry f).1 (entry f).2) q' := by
  obtain ⟨y, rfl, hy⟩ := hx
  have hfield : field f.1 y ++ q = quote f.1 ++ ':' :: ([' '] ++ (y ++ q)) := by
    simp [field]
  rw [hfield] at hbefore
  exact .member hbefore (quoted_quote f.1) .nil (.element (.cons rfl .nil) (hy q) hafter)

theorem spells_lines_members {depth : Nat} {x : List Char} {xs : List (List Char)} {f : String × Tree}
    {fs : List (String × Tree)} (hx : WrittenField x f) (hxs : List.Forall₂ WrittenField xs fs) :
    Spells (lines depth x xs ++ '}' :: r) (.members ((f :: fs).map entry)) ('}' :: r) := by
  induction hxs generalizing x f with
  | nil =>
    have hlast : lines depth x [] ++ '}' :: r =
        newline (depth + 1) ++ (x ++ (newline depth ++ '}' :: r)) := by
      simp [lines]
    rw [hlast]
    exact .lastMember (spells_member_field (blanks_newline _) hx (blanks_newline _))
  | cons hy _ ih =>
    rw [lines_cons]
    exact .moreMembers (spells_member_field (blanks_newline _) hx .nil) (ih hy)

theorem written_object {depth : Nat} {xs : List (List Char)} {fs : List (String × Tree)}
    (h : List.Forall₂ WrittenField xs fs) : Written (object depth xs) (fieldsTree fs) := by
  intro r
  cases h with
  | nil => exact .emptyObject .nil
  | cons hx hxs =>
    rw [object, block_cons]
    exact .object (spells_lines_members hx hxs)

theorem written_map {α : Type} {f : α → List Char} {tree : α → Tree} (h : ∀ a, Written (f a) (tree a))
    (as : List α) : List.Forall₂ Written (as.map f) (as.map tree) := by
  induction as with
  | nil => exact .nil
  | cons a as ih => exact .cons (h a) ih

-- ---------------------------------------------------------------------------
-- Graphs
-- ---------------------------------------------------------------------------

def textTree (s : String) : Tree := .string (quotePieces s)

def foldFields (f : Fold) : List (String × Tree) :=
  [("isGroup", .bool true), ("expandedState", .bool f.expanded), ("prefix", textTree f.folder),
    ("members", .array (f.members.map textTree))]

def nodeFields (n : Node) : List (String × Tree) :=
  [("id", textTree n.id), ("name", textTree n.name), ("type", textTree n.kind.label)] ++
    (n.fold.map foldFields).getD []

def nodeTree (n : Node) : Tree := fieldsTree (nodeFields n)

def endFields (a : Arrow) : List (String × Tree) :=
  [("source", textTree a.source), ("target", textTree a.target), ("isGroupLink", .bool a.grouped)]

def arrowTree (a : Arrow) : List Arrow → Tree
  | [] => fieldsTree (endFields a)
  | b :: bs => fieldsTree (endFields a ++ [("originalLink", arrowTree b bs)])

def linkTree (l : Link) : Tree := arrowTree l.toArrow l.standsFor

def graphTree (g : Graph) : Tree :=
  fieldsTree [("nodes", .array (g.nodes.map nodeTree)), ("links", .array (g.links.map linkTree))]

theorem writtenField {name : String} {y : List Char} {t : Tree} (h : Written y t) :
    WrittenField (field name y) (name, t) := ⟨y, rfl, h⟩

theorem written_printNode (depth : Nat) (n : Node) : Written (printNode depth n) (nodeTree n) := by
  refine written_object (List.rel_append ?_ ?_)
  · exact .cons (writtenField (written_quote _)) (.cons (writtenField (written_quote _))
      (.cons (writtenField (written_quote _)) .nil))
  · cases n.fold with
    | none => exact .nil
    | some f =>
      have hmembers : Written (array (depth + 1) (f.members.map quote)) _ :=
        written_array (written_map written_quote f.members)
      exact .cons (writtenField (written_printFlag true)) (.cons (writtenField (written_printFlag _))
        (.cons (writtenField (written_quote _)) (.cons (writtenField hmembers) .nil)))

theorem written_arrowFields (a : Arrow) : List.Forall₂ WrittenField (arrowFields a) (endFields a) :=
  .cons (writtenField (written_quote _)) (.cons (writtenField (written_quote _))
    (.cons (writtenField (written_printFlag _)) .nil))

theorem written_printArrow (depth : Nat) (a : Arrow) (as : List Arrow) :
    Written (printArrow depth a as) (arrowTree a as) := by
  induction as generalizing depth a with
  | nil => exact written_object (written_arrowFields a)
  | cons b bs ih =>
    exact written_object (List.rel_append (written_arrowFields a)
      (.cons (writtenField (ih (depth + 1) b)) .nil))

theorem written_printLink (depth : Nat) (l : Link) : Written (printLink depth l) (linkTree l) :=
  written_printArrow depth l.toArrow l.standsFor

theorem document_print (g : Graph) : Document (print g) (graphTree g) := by
  have hnodes : Written (array 1 (g.nodes.map (printNode 2))) _ :=
    written_array (written_map (written_printNode 2) g.nodes)
  have hlinks : Written (array 1 (g.links.map (printLink 2))) _ :=
    written_array (written_map (written_printLink 2) g.links)
  have hgraph : Written (printGraph g) (graphTree g) :=
    written_object (.cons (writtenField hnodes) (.cons (writtenField hlinks) .nil))
  have hspell := hgraph []
  rw [List.append_nil] at hspell
  rw [Document, print, String.toList_ofList]
  exact .element .nil hspell .nil

end ImportAtlas.Payload
