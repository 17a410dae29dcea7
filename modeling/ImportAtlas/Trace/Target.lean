-- SUMMARY: The modules and packages that an import address leads to.
import ImportAtlas.Disk.Project
import ImportAtlas.Graph.Basic
import ImportAtlas.Imports.Scan

/-! # Targets

An address such as `pkg.sub.name` is looked up below the project root. If its first part is no
directory there, the address belongs to a package from outside. Otherwise its last part is a name in
the module that the other parts spell, and every package on the way to that module may have an
initialiser, which is imported too unless the importing module lies in that package. -/

namespace ImportAtlas.Trace

/-- What to follow. -/
structure Options where
  /-- whether packages from outside the project are shown -/
  thirdParty : Bool := false
  /-- whether imports inside other statements count -/
  conditional : Bool := false
  deriving DecidableEq, Repr

/-- Something that a module imports. -/
structure Target where
  id : String
  kind : NodeKind
  deriving DecidableEq, Repr

/-- Whether a module lies in the package at `base`, component by component. -/
def liesIn (id base : String) : Bool := (Disk.components base).isPrefixOf (Disk.components id)

/-- The target at one depth of an address: the module at its last but one part, an initialiser
above it. -/
def targetAt? (P : Project) (current : String) (parts : List String) (depth : Nat) :
    Option Target :=
  let base := "/".intercalate (parts.take depth)
  if depth + 1 = parts.length then some ⟨base ++ ".py", .project⟩
  else if liesIn current base then none
  else
    let init := base ++ "/__init__.py"
    if P.isFile init then some ⟨init, .project⟩ else none

/-- Everything an address leads to, seen from the module `current`, in order. -/
def targets (P : Project) (o : Options) (current address : String) : List Target :=
  let parts := segments '.' address
  match parts.head? with
  | none => []
  | some package =>
    if package = "" then []
    else if P.isDir package then
      (List.range' 1 (parts.length - 1)).filterMap (targetAt? P current parts)
    else if o.thirdParty then [⟨package, .thirdParty⟩]
    else []

/-- What one import of a module asks for. -/
inductive Step where
  /-- an import that does not count -/
  | pass (address : String)
  | link (t : Target)
  deriving DecidableEq, Repr

/-- What one import asks for, in order. -/
def importSteps (P : Project) (o : Options) (current : String) (i : Imports.Import) : List Step :=
  if i.conditional && !o.conditional then [.pass i.address]
  else (targets P o current i.address).map .link

/-- What the text of a module asks for, in order. -/
def sourceSteps (P : Project) (o : Options) (current source : String) : List Step :=
  (Imports.scan source).flatMap (importSteps P o current)

end ImportAtlas.Trace
