-- SUMMARY: The part of a disk below a root directory, in which a path from there names a module.
import ImportAtlas.Disk.Basic

/-! # Projects

A project is what lies below its root directory. A module goes by a path from the root, written with
slashes; that path is also its id in the graph. A look-up follows the path on the disk, so one file
answers to every path that leads to it. -/

namespace ImportAtlas

structure Project where
  disk : Disk
  root : Place
  deriving Repr

namespace Project

/-- The place that an id leads to. -/
def find (P : Project) (id : String) : Except DiskError Place := P.disk.follow P.root id

def isDir (P : Project) (id : String) : Bool :=
  match P.find id with
  | .error _ => false
  | .ok p => P.disk.isDir p

def isFile (P : Project) (id : String) : Bool :=
  match P.find id with
  | .error _ => false
  | .ok p => P.disk.isFile p

/-- The text of a module. -/
def read (P : Project) (id : String) : Except DiskError String :=
  match P.find id with
  | .error e => .error e
  | .ok p => P.disk.textAt p

/-- The absolute path of a module. -/
def path (P : Project) (id : String) : String :=
  if Disk.isAbsolute id then id
  else if P.root = [] then "/" ++ id
  else Disk.pathOf P.root ++ "/" ++ id

/-- The texts that can be read. -/
def texts (P : Project) : List String := P.disk.files.filterMap (·.2.text?)

theorem mem_texts {P : Project} {id source : String} (h : P.read id = .ok source) :
    source ∈ P.texts := by
  unfold read at h
  split at h
  next => cases h
  next p _ =>
    have hcontent := Disk.textAt_eq_ok_iff.1 h
    unfold Disk.content? at hcontent
    split at hcontent
    next => cases hcontent
    next =>
      obtain ⟨f, hf, htext⟩ := Option.map_eq_some_iff.1 hcontent
      exact List.mem_filterMap.2 ⟨f, List.mem_of_find?_eq_some hf, by rw [htext, Content.text?]⟩

end Project

namespace Disk

/-- The path of a place from a root above it; the root itself has the empty path. -/
def idFrom? (root p : Place) : Option String :=
  if root.isPrefixOf p then some ("/".intercalate (p.drop root.length)) else none

/-- What lies below a root directory. -/
def project (d : Disk) (root : Place) : Project := ⟨d, root⟩

end Disk

end ImportAtlas
