-- SUMMARY: Readers over characters: a result and a rest that is no longer, or the first problem.
import ImportAtlas.Json.Problem

/-! # Readers

A reader takes characters from the front of a text and leaves the rest. It carries the fact that the
rest is no longer than the text, so a loop that has taken a comma may go on with what is left and is
seen to end. Nothing is read twice and nothing is undone: the first problem is the answer. -/

namespace ImportAtlas.Json

/-- A value read from the front of `s`, and what is left. -/
structure Taken (α : Type) (s : List Char) where
  value : α
  rest : List Char
  rest_le : rest.length ≤ s.length

theorem length_le_cons (c : Char) (s : List Char) : s.length ≤ (c :: s).length := Nat.le_succ _

theorem length_le_cons_of_le {r s : List Char} (c : Char) (h : r.length ≤ s.length) :
    r.length ≤ (c :: s).length := Nat.le_succ_of_le h

theorem length_tail_le_of_le {r s : List Char} (h : r.length ≤ s.length) :
    r.tail.length ≤ s.length := by
  rw [List.length_tail]
  omega

/-- A reader of values of type `α`. -/
def Reader (α : Type) : Type := (s : List Char) → Except Problem (Taken α s)

namespace Reader

protected def pure (a : α) : Reader α := fun s => .ok ⟨a, s, Nat.le_refl _⟩

protected def bind (x : Reader α) (f : α → Reader β) : Reader β := fun s =>
  match x s with
  | .error p => .error p
  | .ok ⟨a, r, hr⟩ =>
    match f a r with
    | .error p => .error p
    | .ok ⟨b, r', hr'⟩ => .ok ⟨b, r', Nat.le_trans hr' hr⟩

instance : Monad Reader where
  pure := Reader.pure
  bind := Reader.bind

/-- Stop with a problem at this place. -/
def fail (c : Cause) : Reader α := fun s => .error (.before c s)

/-- Stop with a problem with the next character. -/
def refuse (c : Cause) : Reader α := fun s => .error (.withNext c s)

/-- The next character, which stays unread. -/
def peek : Reader (Option Char) := fun s => .ok ⟨s.head?, s, Nat.le_refl _⟩

/-- Pass over the next character. -/
def advance : Reader Unit := fun s => .ok ⟨(), s.tail, by simp⟩

end Reader

/-- The four characters that may stand between tokens. -/
def isBlank (c : Char) : Bool := c == ' ' || c == '\t' || c == '\r' || c == '\n'

/-- A text without the blanks in front. -/
def dropBlanks (s : List Char) : List Char := s.dropWhile isBlank

theorem length_dropBlanks_le (s : List Char) : (dropBlanks s).length ≤ s.length :=
  (List.dropWhile_sublist _).length_le

namespace Reader

/-- Pass over blanks. -/
def blanks : Reader Unit := fun s => .ok ⟨(), dropBlanks s, length_dropBlanks_le s⟩

/-- The next character that is not blank, which stays unread. -/
def token : Reader (Option Char) := do blanks; peek

/-- The characters of a word, one after the other. -/
def word : List Char → Reader Unit
  | [], s => .ok ⟨(), s, Nat.le_refl _⟩
  | _ :: _, [] => .error (.before .endInValue [])
  | w :: ws, c :: r =>
    if c = w then
      match word ws r with
      | .error p => .error p
      | .ok ⟨_, r', h⟩ => .ok ⟨(), r', Nat.le_succ_of_le h⟩
    else .error (.before .expectedWord r)

/-- The colon between a key and its value. -/
def colon : Reader Unit := do
  match ← token with
  | none => refuse .endInObject
  | some ':' => advance
  | some _ => refuse .expectedColon

end Reader

end ImportAtlas.Json
