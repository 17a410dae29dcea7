-- SUMMARY: Typed readers: text, flags, lists and values that may be null, and the report on a value of the wrong kind.
import ImportAtlas.Json.Tree

/-! # Typed readers

A typed reader knows which kind of value it wants. A scalar of another kind is read to its end before
it is reported, so a bad scalar is a problem of grammar; an array or an object is reported at its
bracket. -/

namespace ImportAtlas.Json

/-- What a number is called in a report. -/
def Number.describe (n : Number) : String :=
  (if n.isInteger then "integer `" else "floating point `") ++ String.ofList n.chars ++ "`"

namespace Reader

/-- Report that the next value, whose first character is not blank, is not what was wanted. -/
def mismatch (expected : String) : Reader α := do
  match ← peek with
  | none => refuse .expectedValue
  | some c =>
    if c = 'n' then do
      word ['n', 'u', 'l', 'l']
      fail (.wrongKind "null" expected)
    else if c = 't' then do
      word ['t', 'r', 'u', 'e']
      fail (.wrongKind "boolean `true`" expected)
    else if c = 'f' then do
      word ['f', 'a', 'l', 's', 'e']
      fail (.wrongKind "boolean `false`" expected)
    else if c = '-' ∨ isDigit c then do
      let n ← number
      fail (.wrongKind n.describe expected)
    else if c = '"' then do
      advance
      let s ← textBody
      fail (.wrongKind ("string " ++ String.ofList (quote s)) expected)
    else if c = '[' then fail (.wrongKind "sequence" expected)
    else if c = '{' then fail (.wrongKind "map" expected)
    else refuse .expectedValue

/-- A string. `expected` says what it is for. -/
def text (expected : String) : Reader String := do
  match ← token with
  | none => refuse .endInValue
  | some '"' => do advance; textBody
  | some _ => mismatch expected

/-- True or false. -/
def flag : Reader Bool := do
  match ← token with
  | none => refuse .endInValue
  | some 't' => do
    word ['t', 'r', 'u', 'e']
    return true
  | some 'f' => do
    word ['f', 'a', 'l', 's', 'e']
    return false
  | some _ => mismatch "a boolean"

/-- The value null. -/
def null : Reader Unit := do
  match ← token with
  | none => refuse .endInValue
  | some 'n' => word ['n', 'u', 'l', 'l']
  | some _ => mismatch "unit"

/-- Null, or a value. -/
def nullable (value : Reader α) : Reader (Option α) := do
  match ← token with
  | some 'n' => do
    word ['n', 'u', 'l', 'l']
    return none
  | _ => some <$> value

/-- An array of values, where `room` counts the brackets that may still be opened. -/
def list (room : Nat) (item : Nat → Reader α) : Reader (List α) := do
  match ← token with
  | none => refuse .endInValue
  | some '[' => enter (within room fun room => items (item room))
  | some _ => mismatch "a sequence"

/-! ## Records

A record is an object with named fields, or an array that holds the fields in order. -/

/-- A record. `inside` reads the cells of the array form and the entries of the object form, without
the closing bracket. -/
def record (expected : String) (inside : Option (Reader α × Reader α)) : Reader α := do
  match ← token with
  | none => refuse .endInValue
  | some '[' => enter (inside.map fun (cells, _) => do
      let a ← cells
      closeArray
      return a)
  | some '{' => enter (inside.map fun (_, fields) => do
      let a ← fields
      closeObject
      return a)
  | some _ => mismatch expected

/-- The first cell of a record in array form, if there is one. -/
def firstCell (value : Reader α) : Reader (Option α) := do
  if ← hasFirstItem then some <$> value else return none

/-- A later cell of a record in array form, if there is one. -/
def nextCell (value : Reader α) : Reader (Option α) := do
  if ← hasNextItem then some <$> value else return none

/-- A cell that has to be there. -/
def required (index : Nat) (expected : String) : Option α → Reader α
  | some a => pure a
  | none => fail (.tooFewItems index expected)

/-- The value of a field that was not seen before; the key has been taken. -/
def once (name : String) (seen : Option α) (value : Reader α) : Reader α :=
  match seen with
  | some _ => fail (.repeatedField name)
  | none => do colon; value

/-- A field that has to be there once the object is at its end. -/
def present (name : String) : Option α → Reader α
  | some a => pure a
  | none => fail (.missingField name)

/-- The value of a field that nobody asked for. -/
def unknown : Reader Unit := do colon; skip

/-- Nothing but blanks up to the end of the text. -/
def finish : Reader Unit := do
  match ← token with
  | none => return ()
  | some _ => refuse .trailingText

/-- Read a whole text. -/
def run (r : Reader α) (text : String) : Except Problem α :=
  match (do let a ← r; finish; return a : Reader α) text.toList with
  | .error p => .error p
  | .ok t => .ok t.value

end Reader

end ImportAtlas.Json
