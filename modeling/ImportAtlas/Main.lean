-- SUMMARY: The command line program: reads files, follows the arguments and prints.
import ImportAtlas.CommandLine.Run

/-! # The program

The program reads what its arguments can lead to into a disk, follows the arguments on that disk, and
prints what comes of it. -/

namespace ImportAtlas.Program

/-- The place of an absolute path. -/
def placeOf (path : String) : Place := (segments '/' path).filter (· != "")

/-- What a file holds. -/
def contentOf (bytes : ByteArray) : Content :=
  match String.fromUTF8? bytes with
  | some s => .text s
  | none => .binary

/-- Read the file at a place. -/
def readContent (p : Place) : IO Content := do
  try return contentOf (← IO.FS.readBinFile (Disk.pathOf p))
  catch _ => return .binary

/-- Add what is at a place to a disk. -/
def add (d : Disk) (p : Place) : IO Disk := do
  match ← (IO.FS.realPath (Disk.pathOf p)).toBaseIO with
  | .error _ => return d
  | .ok real =>
    if ← real.isDir then return { d with dirs := p :: d.dirs }
    else if ← real.pathExists then return d.write p (← readContent p)
    else return d

/-- Add what is below a directory to a disk. -/
partial def addTree (d : Disk) (entry : IO.FS.DirEntry) : IO Disk := do
  let place := placeOf entry.path.toString
  if ← entry.path.isDir then
    let below ← entry.path.readDir
    below.foldlM addTree { d with dirs := place :: d.dirs }
  else if entry.fileName.endsWith ".py" then
    return d.write place (← readContent place)
  else return d

/-- The disk that an origin is loaded from. -/
def diskFor (origin : Origin) : IO Disk := do
  let here ← IO.currentDir
  let home := placeOf here.toString
  let empty : Disk := { home }
  match origin with
  | .file path => (Disk.passed home path).foldlM add empty
  | .trace entry root _ =>
    let toRoot := Disk.passed home root
    let d ← toRoot.foldlM add empty
    let start := toRoot.headD []
    let d ← match ← ((here / Disk.pathOf start).readDir).toBaseIO with
      | .ok below => below.foldlM addTree d
      | .error _ => pure d
    (Disk.passed start entry).foldlM add d

/-- The disk that the arguments can lead to. -/
def diskOf (args : List String) : IO Disk :=
  match CommandLine.parse args with
  | .ok a => diskFor a.origin
  | .error _ => return { home := [] }

end ImportAtlas.Program

open ImportAtlas in
def main (args : List String) : IO UInt32 := do
  let result := CommandLine.run (← Program.diskOf args) args
  for e in result.events.filter fun e => Level.info.covers e.level do
    IO.eprintln e.message
  IO.print result.value.output
  for line in result.value.diagnostics do
    IO.eprintln line
  return UInt32.ofNat result.value.exitCode
