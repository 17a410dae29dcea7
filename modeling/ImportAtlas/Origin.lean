-- SUMMARY: Where a graph comes from, a saved file or a traced entry, and what can go wrong when it is loaded.
import ImportAtlas.Payload.Read
import ImportAtlas.Trace.Walk

/-! # Origins

A graph is read from a file or traced from an entry module. An origin can be loaded again and again:
what it yields depends on the disk alone. -/

namespace ImportAtlas

inductive Origin where
  | file (path : String)
  | trace (entry root : String) (options : Trace.Options)
  deriving DecidableEq, Repr

inductive LoadError where
  | unreadable (path : String) (cause : DiskError)
  /-- a file whose text holds no graph -/
  | invalid (path text : String) (problem : Json.Problem)
  | trace (e : Trace.Error)
  deriving DecidableEq, Repr

namespace LoadError

/-- What is wrong, then what lies behind it, and so on. -/
def chain : LoadError → List String
  | unreadable path cause => ["failed to read graph file " ++ path, cause.message]
  | invalid path text problem =>
    ["failed to parse " ++ path, "invalid graph JSON", problem.message text]
  | trace e => e.message :: (e.cause?.map DiskError.message).toList

/-- What is wrong, without what lies behind it. -/
def message (e : LoadError) : String := e.chain.headD ""

/-- What lies behind an error, line by line. Several causes are numbered. -/
def causes (e : LoadError) : List String :=
  match e.chain.drop 1 with
  | [] => []
  | [c] => ["", "Caused by:", "    " ++ c]
  | cs => ["", "Caused by:"] ++ cs.zipIdx.map fun (c, i) => "    " ++ toString i ++ ": " ++ c

/-- The whole chain in one text. -/
def fullMessage (e : LoadError) : String := ": ".intercalate e.chain

end LoadError

namespace Origin

/-- The name under which an origin is shown. -/
def label : Origin → String
  | file path => path
  | trace entry _ _ => entry

/-- Load the graph from a disk. -/
def load (o : Origin) (d : Disk) : Logged (Except LoadError Graph) :=
  match o with
  | file path =>
    match d.read path with
    | .error e => pure (.error (.unreadable path e))
    | .ok text => do
      match ← Payload.parse text with
      | .error p => return .error (.invalid path text p)
      | .ok g => return .ok g
  | trace entry root options => do
    match ← Trace.run d root entry options with
    | .error e => return .error (.trace e)
    | .ok g => return .ok g

end Origin

end ImportAtlas
