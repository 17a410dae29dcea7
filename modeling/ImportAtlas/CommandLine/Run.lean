-- SUMMARY: What the program does for a command line.
import ImportAtlas.CommandLine.Arguments
import ImportAtlas.Graph.Grouping
import ImportAtlas.Payload.Print

/-! # Running

A command line asks for the graph as text, or for the viewer. What has to be printed, and how the
program ends, is a value; printing it is left to whoever runs it. -/

namespace ImportAtlas.CommandLine

def versionText : String := "depmap 0.1.0\n"

def helpLines : List String :=
  ["Interactive dependency graph viewer with prefix grouping",
    "",
    "Usage: depmap [OPTIONS] <ENTRY|--graph <GRAPH>>",
    "",
    "Arguments:",
    "  [ENTRY]  Python file to trace imports from",
    "",
    "Options:",
    "      --graph <GRAPH>                      Load a `\x7bnodes, links\x7d` JSON graph instead of tracing",
    "      --project-root <PROJECT_ROOT>        [default: .]",
    "      --include-third-party                ",
    "      --include-conditional-imports        ",
    "      --dump                               Print the graph as JSON and exit without opening a window",
    "      --grouped                            With --dump, print the grouped graph",
    "      --link-distance <LINK_DISTANCE>      [default: 100]",
    "      --link-strength <LINK_STRENGTH>      [default: 0.5]",
    "      --repulsion <REPULSION>              Repulsion magnitude between nodes [default: 1500]",
    "      --center-strength <CENTER_STRENGTH>  [default: 0.02]",
    "  -h, --help                               Print help",
    "  -V, --version                            Print version"]

def helpText : String := "\n".intercalate helpLines ++ "\n"

/-- How a run ends. -/
inductive Outcome where
  /-- print a text and end well -/
  | print (text : String)
  /-- the graph could not be loaded -/
  | failed (e : LoadError)
  /-- the command line cannot be followed -/
  | misused (e : UsageError)
  /-- show the graph of an origin -/
  | view (origin : Origin) (config : SimConfig)

namespace Outcome

/-- The code that the program ends with. -/
def exitCode : Outcome → Nat
  | print _ => 0
  | failed _ | view .. => 1
  | misused _ => 2

/-- What goes to the standard output. -/
def output : Outcome → String
  | print text => text
  | _ => ""

/-- What is reported about a run that failed. -/
def report? : Outcome → Option String
  | failed e => some ("Error: " ++ e.message)
  | _ => none

/-- What goes to the standard error output, line by line. -/
def diagnostics : Outcome → List String
  | print _ => []
  | o@(failed e) => o.report?.toList ++ e.causes
  | misused e => ["error: " ++ e.message, "", "For more information, try '--help'."]
  | view .. => ["Error: viewer failed: there is no window system"]

end Outcome

/-- Load a graph and write it out, grouped or as it is. -/
def dump (d : Disk) (origin : Origin) (grouped : Bool) : Logged Outcome := do
  match ← origin.load d with
  | .error e => return .failed e
  | .ok g =>
    let view ← if grouped then (·.2) <$> ({} : Grouping).apply g else pure g
    return .print (Payload.print view ++ "\n")

/-- Follow a command line. -/
def run (d : Disk) (args : List String) : Logged Outcome :=
  match parse args with
  | .error .version => pure (.print versionText)
  | .error .help => pure (.print helpText)
  | .error e => pure (.misused e)
  | .ok a =>
    if a.dump then dump d a.origin a.grouped
    else do
      Logged.tell
        { level := .info, message := "starting viewer"
          fields := [("source", .text a.origin.label)] }
      return .view a.origin a.config

end ImportAtlas.CommandLine
