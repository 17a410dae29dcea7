-- SUMMARY: JSON values as trees, read leniently when they are passed over and strictly when they are kept.
import ImportAtlas.Json.Container
import ImportAtlas.Json.Number

/-! # Trees

Any JSON value as a tree. A value that is passed over has to be grammatical and no more. A value that
is kept has to nest within the room there is, its numbers have to fit binary64 and its surrogates have
to stand in pairs. -/

namespace ImportAtlas.Json

inductive Tree where
  | null
  | bool (b : Bool)
  | number (n : Number)
  | string (ps : List Piece)
  | array (xs : List Tree)
  | object (es : List (List Piece × Tree))
  deriving Repr

/-- How closely a value is looked at. -/
inductive Mode where
  /-- passed over: grammar only -/
  | lenient
  /-- kept, with room for so many brackets -/
  | strict (room : Nat)
  deriving DecidableEq, Repr

namespace Mode

/-- The mode inside another bracket, if there is room for one. -/
def inner? : Mode → Option Mode
  | lenient => some lenient
  | strict 0 => none
  | strict (room + 1) => some (strict room)

/-- A number, as closely as the mode asks. -/
def number : Mode → Reader Number
  | lenient => Reader.numeral .invalidNumber
  | strict _ => Reader.number

/-- A string behind its opening quote, as closely as the mode asks. -/
def string : Mode → Reader (List Piece)
  | lenient => Reader.pieces
  | strict _ => do return (← Reader.textBody).toList.map .char

end Mode

/-- A key and its colon, as closely as the mode asks; the key begins with a quote. -/
def Reader.treeKey (m : Mode) : Reader (List Piece) := do
  Reader.advance
  let k ← m.string
  Reader.colon
  return k

mutual

/-- A JSON value. -/
def Reader.tree (m : Mode) (s : List Char) : Except Problem (Taken Tree s) :=
  match h : dropBlanks s with
  | [] => .error (.withNext .endInValue [])
  | c :: r =>
    have hs : r.length < s.length := by
      have := length_dropBlanks_le s
      rw [h] at this
      simp only [List.length_cons] at this
      omega
    if c = 'n' then
      match Reader.word ['u', 'l', 'l'] r with
      | .error p => .error p
      | .ok ⟨_, r', h'⟩ => .ok ⟨.null, r', by omega⟩
    else if c = 't' then
      match Reader.word ['r', 'u', 'e'] r with
      | .error p => .error p
      | .ok ⟨_, r', h'⟩ => .ok ⟨.bool true, r', by omega⟩
    else if c = 'f' then
      match Reader.word ['a', 'l', 's', 'e'] r with
      | .error p => .error p
      | .ok ⟨_, r', h'⟩ => .ok ⟨.bool false, r', by omega⟩
    else if c = '-' ∨ isDigit c then
      match m.number (c :: r) with
      | .error p => .error p
      | .ok ⟨n, r', h'⟩ => .ok ⟨.number n, r', by simp only [List.length_cons] at h'; omega⟩
    else if c = '"' then
      match m.string r with
      | .error p => .error p
      | .ok ⟨ps, r', h'⟩ => .ok ⟨.string ps, r', by omega⟩
    else if c = '[' then
      match m.inner? with
      | none => .error (.withNext .tooDeep (c :: r))
      | some m =>
        match Reader.hasFirstItem r with
        | .error p => .error p
        | .ok ⟨false, r₁, h₁⟩ => .ok ⟨.array [], r₁.tail, by simp only [List.length_tail]; omega⟩
        | .ok ⟨true, r₁, h₁⟩ =>
          match Reader.tree m r₁ with
          | .error p => .error p
          | .ok ⟨x, r₂, h₂⟩ =>
            match Reader.treeItems m r₂ with
            | .error p => .error p
            | .ok ⟨xs, r₃, h₃⟩ => .ok ⟨.array (x :: xs), r₃, by omega⟩
    else if c = '{' then
      match m.inner? with
      | none => .error (.withNext .tooDeep (c :: r))
      | some m =>
        match Reader.hasFirstEntry r with
        | .error p => .error p
        | .ok ⟨false, r₁, h₁⟩ => .ok ⟨.object [], r₁.tail, by simp only [List.length_tail]; omega⟩
        | .ok ⟨true, r₁, h₁⟩ =>
          match Reader.treeKey m r₁ with
          | .error p => .error p
          | .ok ⟨k, r₂, h₂⟩ =>
            match Reader.tree m r₂ with
            | .error p => .error p
            | .ok ⟨x, r₃, h₃⟩ =>
              match Reader.treeEntries m r₃ with
              | .error p => .error p
              | .ok ⟨es, r₄, h₄⟩ => .ok ⟨.object ((k, x) :: es), r₄, by omega⟩
    else .error (.withNext .expectedValue (c :: r))
termination_by s.length

/-- The items behind the first, and the closing bracket. -/
def Reader.treeItems (m : Mode) (s : List Char) : Except Problem (Taken (List Tree) s) :=
  match Reader.afterItem s with
  | .error p => .error p
  | .ok (.stop r h) => .ok ⟨[], r.tail, length_tail_le_of_le h⟩
  | .ok (.more r h) =>
    match Reader.tree m r with
    | .error p => .error p
    | .ok ⟨x, r₁, h₁⟩ =>
      match Reader.treeItems m r₁ with
      | .error p => .error p
      | .ok ⟨xs, r₂, h₂⟩ => .ok ⟨x :: xs, r₂, Step.rest_le_of_more h h₁ h₂⟩
termination_by s.length

/-- The entries behind the first, and the closing brace. -/
def Reader.treeEntries (m : Mode) (s : List Char) :
    Except Problem (Taken (List (List Piece × Tree)) s) :=
  match Reader.afterEntry s with
  | .error p => .error p
  | .ok (.stop r h) => .ok ⟨[], r.tail, length_tail_le_of_le h⟩
  | .ok (.more r h) =>
    match Reader.treeKey m r with
    | .error p => .error p
    | .ok ⟨k, r₁, h₁⟩ =>
      match Reader.tree m r₁ with
      | .error p => .error p
      | .ok ⟨x, r₂, h₂⟩ =>
        match Reader.treeEntries m r₂ with
        | .error p => .error p
        | .ok ⟨es, r₃, h₃⟩ => .ok ⟨(k, x) :: es, r₃, by omega⟩
termination_by s.length

end

namespace Reader

/-- Pass over a value. -/
def skip : Reader Unit := do
  let _ ← tree .lenient
  return ()

end Reader

end ImportAtlas.Json
