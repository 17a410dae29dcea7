-- SUMMARY: Arrays and objects: items between brackets, entries between braces, and how deep they nest.
import ImportAtlas.Json.Text

/-! # Arrays and objects

The readers here deal with what lies between the items of an array and between the entries of an
object; what an item or an entry is, they are told. `room` counts how many brackets may still be
opened. -/

namespace ImportAtlas.Json

/-- What stands behind an item or an entry: the end, which stays unread, or more, behind a comma. -/
inductive Step (s : List Char) where
  | stop (rest : List Char) (h : rest.length ≤ s.length)
  | more (rest : List Char) (h : rest.length < s.length)

theorem Step.rest_le_of_more {s r r₁ r₂ : List Char} (h : r.length < s.length)
    (h₁ : r₁.length ≤ r.length) (h₂ : r₂.length ≤ r₁.length) : r₂.length ≤ s.length := by
  omega

namespace Reader

/-- Take an opening bracket and read what is inside; without a reader for the inside there is no
room for the bracket. -/
def enter : Option (Reader α) → Reader α
  | none => refuse .tooDeep
  | some inside => do advance; inside

/-- The reader for the inside of a bracket, given the room before it. -/
def within (room : Nat) (inside : Nat → Reader α) : Option (Reader α) :=
  match room with
  | 0 => none
  | room + 1 => some (inside room)

/-! ## Arrays -/

/-- Whether an array has a first item. -/
def hasFirstItem : Reader Bool := do
  match ← token with
  | none => refuse .endInArray
  | some ']' => return false
  | some _ => return true

/-- What stands behind an item. -/
def afterItem (s : List Char) : Except Problem (Step s) :=
  match h : dropBlanks s with
  | [] => .error (.withNext .endInArray [])
  | ']' :: r => .ok (.stop (']' :: r) (h ▸ length_dropBlanks_le s))
  | ',' :: r =>
    match h' : dropBlanks r with
    | [] => .error (.withNext .endInValue [])
    | ']' :: r' => .error (.withNext .trailingComma (']' :: r'))
    | c :: r' => .ok (.more (c :: r') (by
        have hs := length_dropBlanks_le s
        have hr := length_dropBlanks_le r
        rw [h] at hs
        rw [h'] at hr
        simp only [List.length_cons] at hs hr ⊢
        omega))
  | r => .error (.withNext .expectedItemOrEnd r)

/-- Whether an array has another item; the comma is taken. -/
def hasNextItem : Reader Bool := fun s =>
  match afterItem s with
  | .error p => .error p
  | .ok (.stop r h) => .ok ⟨false, r, h⟩
  | .ok (.more r h) => .ok ⟨true, r, Nat.le_of_lt h⟩

/-- The items behind the first. -/
def moreItems (item : Reader α) (s : List Char) : Except Problem (Taken (List α) s) :=
  match afterItem s with
  | .error p => .error p
  | .ok (.stop r h) => .ok ⟨[], r, h⟩
  | .ok (.more r h) =>
    match item r with
    | .error p => .error p
    | .ok ⟨a, r₁, h₁⟩ =>
      match moreItems item r₁ with
      | .error p => .error p
      | .ok ⟨as, r₂, h₂⟩ => .ok ⟨a :: as, r₂, Step.rest_le_of_more h h₁ h₂⟩
termination_by s.length

/-- The closing bracket. -/
def closeArray : Reader Unit := do
  match ← token with
  | none => refuse .endInArray
  | some ']' => advance
  | some _ => refuse .trailingText

/-- The items of an array and its closing bracket. -/
def items (item : Reader α) : Reader (List α) := do
  if ← hasFirstItem then
    let a ← item
    let as ← moreItems item
    closeArray
    return a :: as
  else
    closeArray
    return []

/-! ## Objects -/

/-- Whether an object has a first entry. -/
def hasFirstEntry : Reader Bool := do
  match ← token with
  | none => refuse .endInObject
  | some '}' => return false
  | some '"' => return true
  | some _ => refuse .keyNotText

/-- What stands behind an entry. -/
def afterEntry (s : List Char) : Except Problem (Step s) :=
  match h : dropBlanks s with
  | [] => .error (.withNext .endInObject [])
  | '}' :: r => .ok (.stop ('}' :: r) (h ▸ length_dropBlanks_le s))
  | ',' :: r =>
    match h' : dropBlanks r with
    | [] => .error (.withNext .endInValue [])
    | '}' :: r' => .error (.withNext .trailingComma ('}' :: r'))
    | '"' :: r' => .ok (.more ('"' :: r') (by
        have hs := length_dropBlanks_le s
        have hr := length_dropBlanks_le r
        rw [h] at hs
        rw [h'] at hr
        simp only [List.length_cons] at hs hr ⊢
        omega))
    | r' => .error (.withNext .keyNotText r')
  | r => .error (.withNext .expectedEntryOrEnd r)

/-- A key that is kept; it begins with a quote. -/
def key : Reader String := do advance; textBody

/-- The entries behind the first, each handled by `entry` with what came before it. -/
def moreEntries (entry : σ → Reader σ) (st : σ) (s : List Char) : Except Problem (Taken σ s) :=
  match afterEntry s with
  | .error p => .error p
  | .ok (.stop r h) => .ok ⟨st, r, h⟩
  | .ok (.more r h) =>
    match entry st r with
    | .error p => .error p
    | .ok ⟨st₁, r₁, h₁⟩ =>
      match moreEntries entry st₁ r₁ with
      | .error p => .error p
      | .ok ⟨st₂, r₂, h₂⟩ => .ok ⟨st₂, r₂, by omega⟩
termination_by s.length

/-- The closing brace. -/
def closeObject : Reader Unit := do
  match ← token with
  | none => refuse .endInObject
  | some '}' => advance
  | some ',' => refuse .trailingComma
  | some _ => refuse .trailingText

/-- The entries of an object; the closing brace stays unread. -/
def entries (entry : σ → Reader σ) (st : σ) : Reader σ := do
  if ← hasFirstEntry then
    let st ← entry st
    moreEntries entry st
  else
    return st

end Reader

end ImportAtlas.Json
