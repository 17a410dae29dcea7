-- SUMMARY: Cutting a text at a separator.

/-! # Segments

The parts of a text between the occurrences of a separator. There is always one part more than there
are separators, so a text without the separator is its own single part. -/

namespace ImportAtlas

def segmentChars (sep : Char) : List Char → List (List Char)
  | [] => [[]]
  | c :: cs =>
    if c = sep then [] :: segmentChars sep cs
    else match segmentChars sep cs with
      | [] => [[c]]
      | part :: parts => (c :: part) :: parts

/-- The parts of a text between separators. -/
def segments (sep : Char) (s : String) : List String := (segmentChars sep s.toList).map String.ofList

theorem segmentChars_ne_nil (sep : Char) (cs : List Char) : segmentChars sep cs ≠ [] := by
  cases cs with
  | nil => simp [segmentChars]
  | cons c cs =>
    simp only [segmentChars]
    split
    · simp
    · split <;> simp

end ImportAtlas
