-- SUMMARY: Logical lines of Python source as lists of tokens, with just the detail that import statements need.

/-! # Tokens

A Python file is cut into logical lines: a statement, or several joined by semicolons, or the head of
a compound statement with what stands on the same line. Of a line only those tokens are told apart
that matter for finding imports. Everything else, strings and operators alike, is `other`. -/

namespace ImportAtlas.Imports

inductive Token where
  /-- a name, a keyword or a number -/
  | word (s : String)
  | dot
  | comma
  | star
  /-- a semicolon outside brackets -/
  | semicolon
  /-- a colon outside brackets -/
  | colon
  /-- a backslash that joins a line with the next one -/
  | join
  | other
  deriving DecidableEq, Repr

structure Line where
  /-- whether the line begins with white space -/
  indented : Bool
  tokens : List Token
  deriving DecidableEq, Repr

end ImportAtlas.Imports
