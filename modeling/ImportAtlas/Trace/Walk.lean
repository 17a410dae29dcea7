-- SUMMARY: Following imports from an entry module through a project, depth first.
import ImportAtlas.Log
import ImportAtlas.Trace.Target

/-! # Walk

The walk keeps a list of steps that are still to do, each with the module it belongs to. A link to a
module of the project that was not visited yet puts the steps of that module in front, so modules are
taken depth first in the order of their import statements. Each id is read once. -/

namespace ImportAtlas.Trace

/-- The graph found so far, the modules visited and the events written. -/
structure State where
  nodes : List Node := []
  links : List Link := []
  visited : List String := []
  events : List Event := []

namespace State

/-- Add a node, unless its id is taken. -/
def addNode (st : State) (id : String) (kind : NodeKind) : State :=
  if st.nodes.any (·.id == id) then st
  else { st with nodes := st.nodes ++ [{ id, name := id, kind }] }

/-- Add a link, unless it is there. -/
def addLink (st : State) (source target : String) : State :=
  if st.links.any fun l => l.source == source && l.target == target then st
  else { st with links := st.links ++ [Link.between source target] }

/-- Add a target and the link to it. -/
def connect (st : State) (current : String) (t : Target) : State :=
  (st.addNode t.id t.kind).addLink current t.id

def visit (st : State) (id : String) : State := { st with visited := id :: st.visited }

def tell (st : State) (e : Event) : State := { st with events := st.events ++ [e] }

@[simp] theorem visited_addNode (st : State) (id : String) (k : NodeKind) :
    (st.addNode id k).visited = st.visited := by
  unfold addNode; split <;> rfl

@[simp] theorem visited_addLink (st : State) (s t : String) :
    (st.addLink s t).visited = st.visited := by
  unfold addLink; split <;> rfl

@[simp] theorem visited_connect (st : State) (c : String) (t : Target) :
    (st.connect c t).visited = st.visited := by
  simp [connect]

end State

/-! ## Ids that a text can spell

One file answers to many ids, but only finitely many ids can be spelled by the texts of a project. -/

/-- The ids that an address can spell. -/
def spelled (address : String) : List String :=
  let parts := segments '.' address
  (List.range parts.length).flatMap fun depth =>
    let base := "/".intercalate (parts.take depth)
    [base ++ ".py", base ++ "/__init__.py"]

theorem mem_spelled_of_targetAt? {P : Project} {current address : String} {depth : Nat} {t : Target}
    (hdepth : depth < (segments '.' address).length)
    (h : targetAt? P current (segments '.' address) depth = some t) : t.id ∈ spelled address := by
  refine List.mem_flatMap.2 ⟨depth, List.mem_range.2 hdepth, ?_⟩
  simp only [targetAt?] at h
  split at h
  · cases h
    simp
  · split at h
    · cases h
    · split at h
      · cases h
        simp
      · cases h

theorem mem_spelled_of_mem_targets {P : Project} {o : Options} {current address : String} {t : Target}
    (h : t ∈ targets P o current address) (hkind : t.kind = .project) : t.id ∈ spelled address := by
  simp only [targets] at h
  split at h
  · cases h
  · split at h
    · cases h
    · split at h
      · obtain ⟨depth, hdepth, ht⟩ := List.mem_filterMap.1 h
        refine mem_spelled_of_targetAt? ?_ ht
        have hrange := List.mem_range'_1.1 hdepth
        omega
      · split at h
        · obtain rfl := List.mem_singleton.1 h
          cases hkind
        · cases h

/-- The ids that some text of a project can spell. -/
def askable (P : Project) : List String :=
  P.texts.flatMap fun source => (Imports.scan source).flatMap fun i => spelled i.address

theorem mem_askable {P : Project} {o : Options} {current source : String} {t : Target}
    (hsource : source ∈ P.texts) (h : .link t ∈ sourceSteps P o current source)
    (hkind : t.kind = .project) : t.id ∈ askable P := by
  obtain ⟨i, hi, ht⟩ := List.mem_flatMap.1 h
  refine List.mem_flatMap.2 ⟨source, hsource, List.mem_flatMap.2 ⟨i, hi, ?_⟩⟩
  unfold importSteps at ht
  split at ht
  · simp at ht
  · obtain ⟨t', ht', hlink⟩ := List.mem_map.1 ht
    cases hlink
    exact mem_spelled_of_mem_targets ht' hkind

/-- How many of these ids were not visited yet. -/
def unvisited (P : Project) (visited : List String) : Nat := (askable P).countP (· ∉ visited)

theorem unvisited_cons_le (P : Project) (id : String) (visited : List String) :
    unvisited P (id :: visited) ≤ unvisited P visited :=
  List.countP_mono_left fun s _ hs => by simp_all

/-- A count falls when its condition gets stronger and a counted element drops out. -/
theorem countP_lt_countP {α : Type} {p q : α → Bool} {l : List α} (hpq : ∀ x ∈ l, p x → q x)
    {a : α} (ha : a ∈ l) (hq : q a) (hp : ¬ p a) : l.countP p < l.countP q := by
  induction l with
  | nil => simp at ha
  | cons x xs ih =>
    have hle : xs.countP p ≤ xs.countP q :=
      List.countP_mono_left fun y hy => hpq y (List.mem_cons_of_mem _ hy)
    rcases List.mem_cons.1 ha with rfl | hmem
    · simp only [List.countP_cons, hq, if_true]
      simp only [hp, Bool.false_eq_true, if_false]
      omega
    · have hlt := ih (fun y hy => hpq y (List.mem_cons_of_mem _ hy)) hmem
      have hx := hpq x List.mem_cons_self
      simp only [List.countP_cons]
      by_cases hqx : q x = true
      · rw [if_pos hqx]
        split <;> omega
      · rw [if_neg hqx, if_neg fun hpx => hqx (hx hpx)]
        omega

theorem unvisited_cons_lt {P : Project} {id : String} {visited : List String} (h : id ∈ askable P)
    (hv : id ∉ visited) : unvisited P (id :: visited) < unvisited P visited :=
  countP_lt_countP (fun s _ hs => by simp_all) h (by simpa using hv) (by simp)

/-- Whether a step leads to a module by an id that no text spells. -/
def Step.isStrange (P : Project) : Step → Bool
  | .pass _ => false
  | .link t => t.kind == .project && !(askable P).contains t.id

/-- How many pending steps do so. No module that is read adds one. -/
def strange (P : Project) (pending : List (String × Step)) : Nat := pending.countP (·.2.isStrange P)

theorem strange_cons_le (P : Project) (p : String × Step) (rest : List (String × Step)) :
    strange P rest ≤ strange P (p :: rest) := (List.sublist_cons_self p rest).countP_le

theorem strange_append (P : Project) (pending rest : List (String × Step)) :
    strange P (pending ++ rest) = strange P pending + strange P rest := List.countP_append

theorem strange_sourceSteps {P : Project} {o : Options} {current source : String}
    (h : source ∈ P.texts) : strange P ((sourceSteps P o current source).map (current, ·)) = 0 := by
  refine List.countP_eq_zero.2 fun p hp => ?_
  obtain ⟨s, hs, rfl⟩ := List.mem_map.1 hp
  cases s with
  | pass => simp [Step.isStrange]
  | link t =>
    have hid := mem_askable h hs
    simpa [Step.isStrange] using hid

/-- A pair falls if its second part falls and the first does not rise. -/
theorem lex_of_le {α : Type} {r : α → α → Prop} {a b : Nat} {x y : α} (hab : a ≤ b) (h : r x y) :
    Prod.Lex (· < ·) r (a, x) (b, y) := by
  rcases Nat.lt_or_eq_of_le hab with hlt | rfl
  · exact Prod.Lex.left _ _ hlt
  · exact Prod.Lex.right _ h

/-- Doing a step without putting new ones in front is progress. -/
theorem shorter_lt {P : Project} {p : String × Step} {rest : List (String × Step)} {n m : Nat}
    (h : n ≤ m) :
    Prod.Lex (· < ·) (Prod.Lex (· < ·) (· < ·)) (strange P rest, n, rest.length)
      (strange P (p :: rest), m, (p :: rest).length) :=
  lex_of_le (strange_cons_le P p rest) (lex_of_le h (Nat.lt_succ_self _))

/-- Visiting a module is progress, however many steps it puts in front: either its id is one less to
visit, or it was a strange one. -/
theorem deeper_lt {P : Project} {u : String} {t : Target} {rest : List (String × Step)}
    {visited : List String} (h : ¬ (t.kind ≠ .project ∨ t.id ∈ visited)) (n m : Nat) :
    Prod.Lex (· < ·) (Prod.Lex (· < ·) (· < ·)) (strange P rest, unvisited P (t.id :: visited), n)
      (strange P ((u, .link t) :: rest), unvisited P visited, m) := by
  obtain ⟨hkind, hnew⟩ := not_or.1 h
  by_cases hid : t.id ∈ askable P
  · exact lex_of_le (strange_cons_le P _ rest) (Prod.Lex.left _ _ (unvisited_cons_lt hid hnew))
  · refine Prod.Lex.left _ _ ?_
    simp [strange, Step.isStrange, hid, Decidable.not_not.1 hkind]

/-! ## The walk -/

/-- Event for an import that does not count. -/
def passed (file address : String) : Event where
  level := .debug
  message := "skipping conditional import"
  fields := [("file", .text file), ("address", .text address)]

/-- Event for a module that cannot be read. -/
def unreadable (path : String) (e : DiskError) : Event where
  level := .warn
  message := "skipping unreadable module"
  fields := [("file", .text path), ("error", .text e.message)]

/-- Do all pending steps. -/
def walk (P : Project) (o : Options) (pending : List (String × Step)) (st : State) : State :=
  match pending with
  | [] => st
  | (current, .pass address) :: rest => walk P o rest (st.tell (passed current address))
  | (current, .link t) :: rest =>
    let st' := st.connect current t
    if _hnew : t.kind ≠ .project ∨ t.id ∈ st.visited then walk P o rest st'
    else
      match _hread : P.read t.id with
      | .error e => walk P o rest ((st'.visit t.id).tell (unreadable (P.path t.id) e))
      | .ok source =>
        walk P o ((sourceSteps P o t.id source).map (t.id, ·) ++ rest) (st'.visit t.id)
termination_by (strange P pending, unvisited P st.visited, pending.length)
decreasing_by
  · exact shorter_lt (Nat.le_refl _)
  · simp only [State.visited_connect]
    exact shorter_lt (Nat.le_refl _)
  · simp only [State.tell, State.visit, State.visited_connect]
    exact shorter_lt (unvisited_cons_le P t.id st.visited)
  · simp only [State.visit, State.visited_connect, strange_append,
      strange_sourceSteps (Project.mem_texts _hread), Nat.zero_add]
    exact deeper_lt _hnew _ _

/-- The modules and packages that can be reached from an entry module, and how. -/
def graph (P : Project) (o : Options) (entry : String) : Logged Graph :=
  let start : State := ({} : State).addNode entry .root |>.visit entry
  let st := match P.read entry with
    | .error e => start.tell (unreadable (P.path entry) e)
    | .ok source => walk P o ((sourceSteps P o entry source).map (entry, ·)) start
  let done : Event :=
    { level := .info, message := "traced imports"
      fields := [("entry", .text entry), ("nodes", .count st.nodes.length),
        ("links", .count st.links.length)] }
  ⟨{ nodes := st.nodes, links := st.links }, st.events ++ [done]⟩

/-- Why a trace cannot start. -/
inductive Error where
  | noRoot (root : String) (cause : DiskError)
  | noEntry (entry : String) (cause : DiskError)
  | notFile (entry : String)
  | outside (entry root : String)
  deriving DecidableEq, Repr

namespace Error

def message : Error → String
  | noRoot root _ => "project root " ++ root ++ " does not exist"
  | noEntry entry _ => "entry file " ++ entry ++ " does not exist"
  | notFile entry => "entry " ++ entry ++ " is not a file"
  | outside entry root => "entry " ++ entry ++ " is outside the project root " ++ root

/-- What lies behind an error. -/
def cause? : Error → Option DiskError
  | noRoot _ e | noEntry _ e => some e
  | notFile _ | outside .. => none

end Error

/-- The project below a root path, and the id of an entry file in it. A relative entry starts at the
root, not at the working directory. -/
def locate (d : Disk) (root entry : String) : Except Error (Project × String) :=
  match d.resolve root with
  | .error e => .error (.noRoot root e)
  | .ok r =>
    match d.follow r entry with
    | .error e => .error (.noEntry entry e)
    | .ok p =>
      if !d.isFile p then .error (.notFile entry)
      else match Disk.idFrom? r p with
        | none => .error (.outside entry (Disk.pathOf r))
        | some id => .ok (d.project r, id)

/-- Trace the imports of an entry file on a disk. -/
def run (d : Disk) (root entry : String) (o : Options) : Logged (Except Error Graph) :=
  match locate d root entry with
  | .error e => pure (.error e)
  | .ok (P, id) => do return .ok (← graph P o id)

end ImportAtlas.Trace
