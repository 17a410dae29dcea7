-- SUMMARY: A finite file system as a value: resolving paths, reading and changing files.
import ImportAtlas.Segments

/-! # Disk

The files that a program can see, as a value. A place is the list of names on the way from the root of
the file system. A path text is resolved the way an operating system does it: name by name, where
every name but the last has to be a directory, `..` goes up, and a slash at the end asks for a
directory. -/

namespace ImportAtlas

/-- What a file holds. -/
inductive Content where
  | text (s : String)
  /-- bytes that are not text -/
  | binary
  deriving DecidableEq, Repr

def Content.text? : Content → Option String
  | text s => some s
  | binary => none

/-- The names on the way from the root of the file system. -/
abbrev Place := List String

/-- Why a path cannot be used. -/
inductive DiskError where
  | notFound | notDirectory | isDirectory | notText
  deriving DecidableEq, Repr

def DiskError.message : DiskError → String
  | notFound => "No such file or directory (os error 2)"
  | notDirectory => "Not a directory (os error 20)"
  | isDirectory => "Is a directory (os error 21)"
  | notText => "stream did not contain valid UTF-8"

structure Disk where
  /-- the working directory, from which a relative path starts -/
  home : Place
  files : List (Place × Content) := []
  /-- directories, with or without files in them -/
  dirs : List Place := []
  deriving Repr

namespace Disk

/-- The places of directories: those listed, those on the way to something, and the root. -/
def isDir (d : Disk) (p : Place) : Bool :=
  p.isEmpty || p.isPrefixOf d.home || d.dirs.any p.isPrefixOf ||
    d.files.any fun f => p.isPrefixOf f.1 && p != f.1

/-- What the file at a place holds. A directory is no file, whatever is listed for its place. -/
def content? (d : Disk) (p : Place) : Option Content :=
  if d.isDir p then none else (d.files.find? (·.1 == p)).map (·.2)

def isFile (d : Disk) (p : Place) : Bool := (d.content? p).isSome

/-- Follow names from a place that exists. -/
def walk (d : Disk) (here : Place) : List String → Except DiskError Place
  | [] => .ok here
  | name :: names =>
    if !d.isDir here then .error .notDirectory
    else if name = "" ∨ name = "." then d.walk here names
    else if name = ".." then d.walk here.dropLast names
    else
      let there := here ++ [name]
      if d.isDir there || d.isFile there then d.walk there names else .error .notFound

def isAbsolute (path : String) : Bool := path.toList.head? == some '/'

/-- Whether a name leads on. The empty name and `.` stay where they are. -/
def leadsOn (name : String) : Bool := name != "" && name != "."

/-- The components by which paths are compared: names that stay where they are do not count, but a
slash or a `.` at the start of a path does. -/
def components (path : String) : List String :=
  let start :=
    if isAbsolute path then ["/"]
    else if (segments '/' path).head? = some "." then ["."]
    else []
  start ++ (segments '/' path).filter leadsOn

/-- Follow a path from a place; an absolute path starts at the root. -/
def follow (d : Disk) (start : Place) (path : String) : Except DiskError Place :=
  d.walk (if isAbsolute path then [] else start) (segments '/' path)

/-- The place that a path names. The empty path names nothing. -/
def resolve (d : Disk) (path : String) : Except DiskError Place :=
  if path = "" then .error .notFound else d.follow d.home path

/-- The text of the file at a place that exists. -/
def textAt (d : Disk) (p : Place) : Except DiskError String :=
  match d.content? p with
  | some (.text s) => .ok s
  | some .binary => .error .notText
  | none => .error .isDirectory

theorem textAt_eq_ok_iff {d : Disk} {p : Place} {s : String} :
    d.textAt p = .ok s ↔ d.content? p = some (.text s) := by
  unfold textAt
  split <;> simp_all

/-- The text of the file that a path names. -/
def read (d : Disk) (path : String) : Except DiskError String :=
  match d.resolve path with
  | .error e => .error e
  | .ok p => d.textAt p

/-- The absolute path of a place. -/
def pathOf (p : Place) : String := "/" ++ "/".intercalate p

/-- Put a file at a place, in place of one that is there. -/
def write (d : Disk) (p : Place) (c : Content) : Disk :=
  { d with files := (p, c) :: d.files.filter (·.1 != p) }

/-- Take away the file at a place. The directory that it was in stays. -/
def remove (d : Disk) (p : Place) : Disk :=
  if d.isFile p then { d with files := d.files.filter (·.1 != p), dirs := p.dropLast :: d.dirs } else d

/-- The place that a path leads to when every name on the way is taken as it stands, and the places
passed. -/
def passed (start : Place) (path : String) : List Place :=
  let step (seen : List Place) (name : String) : List Place :=
    let here := seen.headD []
    if name = "" ∨ name = "." then seen
    else if name = ".." then here.dropLast :: seen
    else (here ++ [name]) :: seen
  (segments '/' path).foldl step [if isAbsolute path then [] else start]

/-- Make a directory and those on the way to it. -/
def makeDir (d : Disk) (path : String) : Disk := { d with dirs := passed d.home path ++ d.dirs }

/-- Write a file and make the directories on the way to it. -/
def writeFile (d : Disk) (path : String) (c : Content) : Disk :=
  match passed d.home path with
  | [] => d
  | p :: way => { d with dirs := way ++ d.dirs }.write p c

end Disk

end ImportAtlas
