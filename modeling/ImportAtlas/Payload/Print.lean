-- SUMMARY: Writing a graph as JSON text.
import ImportAtlas.Graph.Basic
import ImportAtlas.Json.Text

/-! # Printing payloads

A graph is written with two blanks of indentation for each open bracket, one field or item a line. The
marks of a group are written for group nodes only, and the link that a link stands for only where
there is one. -/

namespace ImportAtlas.Payload

open Json

/-- A new line with the indentation for `depth` open brackets. -/
def newline (depth : Nat) : List Char := '\n' :: List.replicate (2 * depth) ' '

/-- Items between brackets, each on a line of its own; `depth` counts the brackets around them. -/
def block (opening closing : Char) (depth : Nat) : List (List Char) → List Char
  | [] => [opening, closing]
  | x :: xs =>
    opening :: newline (depth + 1) ++ x ++ xs.flatMap (fun y => ',' :: newline (depth + 1) ++ y) ++
      newline depth ++ [closing]

/-- A named field. -/
def field (name : String) (value : List Char) : List Char := quote name ++ [':', ' '] ++ value

def printFlag (b : Bool) : List Char := (if b then "true" else "false").toList

def object (depth : Nat) (fields : List (List Char)) : List Char := block '{' '}' depth fields

def array (depth : Nat) (items : List (List Char)) : List Char := block '[' ']' depth items

def printNode (depth : Nat) (n : Node) : List Char :=
  object depth <|
    [field "id" (quote n.id), field "name" (quote n.name), field "type" (quote n.kind.label)] ++
    match n.fold with
    | none => []
    | some f =>
      [field "isGroup" (printFlag true), field "expandedState" (printFlag f.expanded),
        field "prefix" (quote f.folder),
        field "members" (array (depth + 1) (f.members.map quote))]

def arrowFields (a : Arrow) : List (List Char) :=
  [field "source" (quote a.source), field "target" (quote a.target),
    field "isGroupLink" (printFlag a.grouped)]

/-- An arrow and the chain of arrows it stands for. -/
def printArrow (depth : Nat) (a : Arrow) : List Arrow → List Char
  | [] => object depth (arrowFields a)
  | b :: bs => object depth (arrowFields a ++ [field "originalLink" (printArrow (depth + 1) b bs)])

def printLink (depth : Nat) (l : Link) : List Char := printArrow depth l.toArrow l.standsFor

def printGraph (g : Graph) : List Char :=
  object 0
    [field "nodes" (array 1 (g.nodes.map (printNode 2))),
      field "links" (array 1 (g.links.map (printLink 2)))]

/-- The text of a graph. -/
def print (g : Graph) : String := String.ofList (printGraph g)

end ImportAtlas.Payload
