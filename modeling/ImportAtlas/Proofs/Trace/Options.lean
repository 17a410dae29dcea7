-- SUMMARY: Traces with different options compared: packages from outside can be deleted, conditional imports only add.
import ImportAtlas.Proofs.Trace.Order

/-! # Options of a trace

A trace that shows packages from outside goes through the same modules in the same order as one that
does not. The id of a package has no dot and the id of a module has one, so a state of the one walk
less all that is not dotted is a state of the other: a step to a package is not seen, and any other
step is the same step.

Conditional imports can change the order of the whole walk. But a trace is the closure of its entry,
and a module that may follow more imports asks for more. -/

namespace ImportAtlas

/-- The ids of the packages from outside. -/
def Graph.packages (g : Graph) : List String := (g.nodes.filter (·.kind == .thirdParty)).map (·.id)

/-- A graph without the packages from outside and the links to them. -/
def Graph.withoutPackages (g : Graph) : Graph where
  nodes := g.nodes.filter (·.kind != .thirdParty)
  links := g.links.filter (!g.packages.contains ·.target)

namespace Trace

/-! ## What a walk without packages sees -/

/-- Whether an id has a dot, as that of a module has. -/
def dotted (id : String) : Bool := id.toList.contains '.'

theorem dotted_iff {id : String} : dotted id = true ↔ '.' ∈ id.toList := List.contains_iff_mem

namespace State

/-- A state without all that is not dotted. -/
def modules (st : State) : State :=
  { st with nodes := st.nodes.filter (dotted ·.id), links := st.links.filter (dotted ·.target) }

variable {st : State} {u : String} {t : Target}

theorem modules_addNode {id : String} (h : dotted id = true) (k : NodeKind) :
    (st.addNode id k).modules = st.modules.addNode id k := by
  have hany : st.modules.nodes.any (·.id == id) = st.nodes.any (·.id == id) := by
    rw [modules, List.any_filter]
    refine congrArg st.nodes.any (funext fun n => ?_)
    by_cases hn : n.id = id <;> simp [hn, h]
  unfold addNode
  rw [hany]
  split
  next => rfl
  next => simp [modules, h]

theorem modules_addLink {target : String} (h : dotted target = true) :
    (st.addLink u target).modules = st.modules.addLink u target := by
  have hany : st.modules.links.any (fun l => l.source == u && l.target == target) =
      st.links.any fun l => l.source == u && l.target == target := by
    rw [modules, List.any_filter]
    refine congrArg st.links.any (funext fun l => ?_)
    by_cases hl : l.target = target <;> simp [hl, h]
  unfold addLink
  rw [hany]
  split
  next => rfl
  next => simp [modules, Link.between, h]

/-- The link to a module is the same move on both sides. -/
theorem modules_connect (h : dotted t.id = true) :
    (st.connect u t).modules = st.modules.connect u t := by
  rw [connect, modules_addLink h, modules_addNode h, connect]

/-- The link to a package is not seen. -/
theorem modules_connect_package (h : dotted t.id = false) : (st.connect u t).modules = st.modules := by
  have hnode : (st.addNode t.id t.kind).modules = st.modules := by
    unfold addNode
    split
    next => rfl
    next => simp [modules, h]
  have hlink (s : State) : (s.addLink u t.id).modules = s.modules := by
    unfold addLink
    split
    next => rfl
    next => simp [modules, Link.between, h]
  rw [connect, hlink, hnode]

end State

/-- Whether a step is seen: it is no link, or one to a module. -/
def Step.isSeen : Step → Bool
  | .pass _ => true
  | .link t => dotted t.id

variable {P : Project} {c : Bool} {f : String}

theorem dotted_of_targetAt? {parts : List String} {depth : Nat} {t : Target}
    (h : targetAt? P f parts depth = some t) : dotted t.id = true := by
  rw [dotted_iff]
  simp only [targetAt?] at h
  split at h
  next =>
    obtain rfl := Option.some.inj h
    simp
  next =>
    split at h
    next => simp at h
    next =>
      split at h
      next =>
        obtain rfl := Option.some.inj h
        simp
      next => simp at h

/-- An address leads to the same modules whether packages are shown or not. -/
theorem targets_withoutPackages (address : String) :
    (targets P ⟨true, c⟩ f address).filter (dotted ·.id) = targets P ⟨false, c⟩ f address := by
  simp only [targets]
  cases hparts : segments '.' address with
  | nil => rfl
  | cons package rest =>
    simp only [List.head?_cons]
    split
    next => rfl
    next =>
      split
      next =>
        refine List.filter_eq_self.2 fun t ht => ?_
        obtain ⟨depth, -, hdepth⟩ := List.mem_filterMap.1 ht
        exact dotted_of_targetAt? hdepth
      next =>
        have hdot : '.' ∉ package.toList := not_mem_of_mem_segments (hparts ▸ List.mem_cons_self)
        simp [dotted, hdot]

theorem sourceSteps_withoutPackages (source : String) :
    (sourceSteps P ⟨true, c⟩ f source).filter Step.isSeen = sourceSteps P ⟨false, c⟩ f source := by
  rw [sourceSteps, List.filter_flatMap, sourceSteps]
  refine congrArg (List.flatMap · (Imports.scan source)) (funext fun i => ?_)
  unfold importSteps
  split
  next => rfl
  next => rw [List.filter_map, ← targets_withoutPackages]; rfl

/-! ## The two walks -/

section Equations

variable {o : Options} {u : String} {t : Target} {rest : List (String × Step)} {st : State}

theorem walk_known (h : t.kind ≠ .project ∨ t.id ∈ st.visited) :
    walk P o ((u, .link t) :: rest) st = walk P o rest (st.connect u t) := by
  rw [walk, dif_pos h]

theorem walk_unreadable {e : DiskError} (h : ¬ (t.kind ≠ .project ∨ t.id ∈ st.visited))
    (hread : P.read t.id = .error e) :
    walk P o ((u, .link t) :: rest) st =
      walk P o rest (((st.connect u t).visit t.id).tell (unreadable (P.path t.id) e)) := by
  rw [walk, dif_neg h]
  split
  next e' hread' =>
    cases hread.symm.trans hread'
    rfl
  next source hread' => cases hread.symm.trans hread'

theorem walk_readable {source : String} (h : ¬ (t.kind ≠ .project ∨ t.id ∈ st.visited))
    (hread : P.read t.id = .ok source) :
    walk P o ((u, .link t) :: rest) st =
      walk P o ((sourceSteps P o t.id source).map (t.id, ·) ++ rest) ((st.connect u t).visit t.id) := by
  rw [walk, dif_neg h]
  split
  next e hread' => cases hread.symm.trans hread'
  next source' hread' =>
    cases hread.symm.trans hread'
    rfl

end Equations

/-- The pending steps that are seen. -/
def seen (pending : List (String × Step)) : List (String × Step) := pending.filter (·.2.isSeen)

theorem seen_append (pending rest : List (String × Step)) :
    seen (pending ++ rest) = seen pending ++ seen rest := List.filter_append ..

theorem seen_sourceSteps (source : String) :
    seen ((sourceSteps P ⟨true, c⟩ f source).map (f, ·)) =
      (sourceSteps P ⟨false, c⟩ f source).map (f, ·) := by
  rw [seen, List.filter_map, ← sourceSteps_withoutPackages]
  rfl

/-- Exactly the links to dotted ids lead to modules. -/
def Sorted (pending : List (String × Step)) : Prop :=
  ∀ ⦃u t⦄, (u, Step.link t) ∈ pending → (t.kind = .project ↔ dotted t.id = true)

theorem sorted_stepsOf (P : Project) (o : Options) (f : String) : Sorted (stepsOf P o f) := by
  intro u t ht
  rw [(link_mem_stepsOf.1 ht).2.kind_eq, dotted_iff]
  split <;> simp [*]

theorem sorted_sourceSteps {o : Options} {source : String} (h : P.read f = .ok source) :
    Sorted ((sourceSteps P o f source).map (f, ·)) := by
  have hsorted := sorted_stepsOf P o f
  rwa [stepsOf, h] at hsorted

theorem Sorted.tail {p : String × Step} {rest : List (String × Step)} (h : Sorted (p :: rest)) :
    Sorted rest := fun _ _ ht => h (List.mem_cons_of_mem _ ht)

theorem Sorted.append {pending rest : List (String × Step)} (h : Sorted pending) (hrest : Sorted rest) :
    Sorted (pending ++ rest) := fun _ _ ht => (List.mem_append.1 ht).elim (@h _ _) (@hrest _ _)

/-- A walk with packages, less the packages, is the walk without them. -/
theorem modules_walk {pending : List (String × Step)} {st : State} (h : Sorted pending) :
    (walk P ⟨true, c⟩ pending st).modules = walk P ⟨false, c⟩ (seen pending) st.modules := by
  have hlink {u : String} {t : Target} {rest : List (String × Step)} (hdot : dotted t.id = true) :
      seen ((u, .link t) :: rest) = (u, .link t) :: seen rest := List.filter_cons_of_pos hdot
  fun_induction walk P ⟨true, c⟩ pending st with
  | case1 st => rw [seen, List.filter_nil, walk]
  | case2 st u a rest ih =>
    have hpass : seen ((u, .pass a) :: rest) = (u, .pass a) :: seen rest := rfl
    rw [ih h.tail, hpass, walk]
    rfl
  | case3 st u t rest st' hknown ih =>
    rw [ih h.tail]
    cases hdot : dotted t.id with
    | true =>
      have hknown' : t.kind ≠ .project ∨ t.id ∈ st.modules.visited := hknown
      rw [hlink hdot, walk_known hknown', State.modules_connect hdot]
    | false =>
      have hpackage : seen ((u, .link t) :: rest) = seen rest :=
        List.filter_cons_of_neg (by simp [Step.isSeen, hdot])
      rw [hpackage, State.modules_connect_package hdot]
  | case4 st u t rest st' hnew e hread ih =>
    have hdot : dotted t.id = true := (h List.mem_cons_self).1 (not_not.1 (not_or.1 hnew).1)
    have hnew' : ¬ (t.kind ≠ .project ∨ t.id ∈ st.modules.visited) := hnew
    rw [ih h.tail, hlink hdot, walk_unreadable hnew' hread, ← State.modules_connect hdot]
    rfl
  | case5 st u t rest st' hnew source hread ih =>
    have hdot : dotted t.id = true := (h List.mem_cons_self).1 (not_not.1 (not_or.1 hnew).1)
    have hnew' : ¬ (t.kind ≠ .project ∨ t.id ∈ st.modules.visited) := hnew
    rw [ih ((sorted_sourceSteps hread).append h.tail), seen_append, seen_sourceSteps, hlink hdot,
      walk_readable hnew' hread, ← State.modules_connect hdot]
    rfl

/-! ## Packages from outside -/

variable {entry : String}

theorem modules_graph (h : dotted entry = true) :
    (graph P ⟨false, c⟩ entry).value =
      { nodes := (graph P ⟨true, c⟩ entry).value.nodes.filter (dotted ·.id)
        links := (graph P ⟨true, c⟩ entry).value.links.filter (dotted ·.target) } := by
  have horigin : (({} : State).addNode entry .root |>.visit entry) = origin entry := rfl
  have hmodules : (origin entry).modules = origin entry := by
    simp [State.modules, origin, entryNode, h]
  cases hread : P.read entry with
  | error e =>
    simp only [graph, hread, horigin]
    exact congrArg (fun st : State => Graph.mk st.nodes st.links) hmodules.symm
  | ok source =>
    have hsorted : Sorted ((sourceSteps P ⟨true, c⟩ entry source).map (entry, ·)) :=
      sorted_sourceSteps hread
    simp only [graph, hread, horigin]
    rw [← hmodules, ← seen_sourceSteps, ← modules_walk hsorted, hmodules]
    rfl

/-- The packages of a trace are the nodes whose ids are not dotted. -/
theorem IsClosure.kind_eq_thirdParty_iff {o : Options} {g : Graph} (hg : IsClosure P.view o entry g)
    (h : dotted entry = true) {n : Node} (hn : n ∈ g.nodes) :
    n.kind = .thirdParty ↔ dotted n.id = false := by
  rcases (hg.nodes n).1 hn with rfl | ⟨-, u, t, -, ht, rfl⟩
  · simp [entryNode, h]
  · rw [Bool.eq_false_iff, Ne, dotted_iff]
    have hkind : t.node.kind = if '.' ∈ t.node.id.toList then .project else .thirdParty := ht.kind_eq
    rw [hkind]
    split <;> simp [*]

theorem IsClosure.mem_packages_iff {o : Options} {g : Graph} (hg : IsClosure P.view o entry g)
    (h : dotted entry = true) {id : String} (hid : id ∈ g.ids) :
    id ∈ g.packages ↔ dotted id = false := by
  simp only [Graph.packages, List.mem_map, List.mem_filter, beq_iff_eq]
  constructor
  · rintro ⟨n, ⟨hn, hkind⟩, rfl⟩
    exact (hg.kind_eq_thirdParty_iff h hn).1 hkind
  · intro hdot
    obtain ⟨n, hn, rfl⟩ := List.mem_map.1 hid
    exact ⟨n, ⟨hn, (hg.kind_eq_thirdParty_iff h hn).2 hdot⟩, rfl⟩

/-- Without packages a trace is the trace with them, less the packages and the links to them. -/
theorem graph_withoutPackages (h : dotted entry = true) :
    (graph P ⟨false, c⟩ entry).value = (graph P ⟨true, c⟩ entry).value.withoutPackages := by
  have hg := isClosure_graph P ⟨true, c⟩ entry
  rw [modules_graph h, Graph.withoutPackages, Graph.mk.injEq]
  constructor
  · refine List.filter_congr fun n hn => ?_
    have hkind := hg.kind_eq_thirdParty_iff h hn
    cases hdot : dotted n.id <;> simp_all
  · refine List.filter_congr fun l hl => ?_
    have hpackage := hg.mem_packages_iff h (hg.ends_mem hl).2
    cases hdot : dotted l.target <;> simp_all

/-! ## Conditional imports -/

variable {V : Project.View} {p : Bool}

theorem Names.mono {parts : List String} (h : Names V ⟨p, false⟩ f parts) : Names V ⟨p, true⟩ f parts := by
  obtain ⟨source, i, hread, hi, -, hparts⟩ := h
  exact ⟨source, i, hread, hi, fun _ => rfl, hparts⟩

theorem Asks.mono {t : Target} (h : Asks V ⟨p, false⟩ f t) : Asks V ⟨p, true⟩ f t := by
  cases h with
  | package h hs hdir hshown => exact .package h.mono hs hdir hshown
  | module h hs hdir => exact .module h.mono hs hdir
  | initialiser h hs hdir hbelow hout hfile => exact .initialiser h.mono hs hdir hbelow hout hfile

theorem Reached.mono {u : String} (h : Reached V ⟨p, false⟩ entry u) : Reached V ⟨p, true⟩ entry u := by
  induction h with
  | entry => exact .entry
  | step _ ht ih => exact .step ih ht.mono

theorem IsClosure.nodes_mono {g g' : Graph} (hg : IsClosure V ⟨p, false⟩ entry g)
    (hg' : IsClosure V ⟨p, true⟩ entry g') : g.nodes ⊆ g'.nodes := by
  intro n hn
  refine (hg'.nodes n).2 (((hg.nodes n).1 hn).imp_right ?_)
  rintro ⟨hne, u, t, hu, ht, rfl⟩
  exact ⟨hne, u, t, hu.mono, ht.mono, rfl⟩

theorem IsClosure.links_mono {g g' : Graph} (hg : IsClosure V ⟨p, false⟩ entry g)
    (hg' : IsClosure V ⟨p, true⟩ entry g') : g.links.map Link.ends ⊆ g'.links.map Link.ends := by
  intro ⟨u, v⟩ huv
  obtain ⟨hu, kind, ht⟩ := (hg.links u v).1 huv
  exact (hg'.links u v).2 ⟨hu.mono, kind, ht.mono⟩

/-! ## Traces -/

/-- The options of a trace only add. If the entry is not found, a trace fails whatever they are. Else,
if the id of the entry has a dot, then deleting the packages from outside and the links to them gives the
trace that does not show them; and a trace without conditional imports is part of the one with them. -/
theorem run_options_add (d : Disk) (root entry : String) :
    (∃ e, ∀ o, (run d root entry o).value = .error e) ∨
      ∃ P id, locate d root entry = .ok (P, id) ∧
        ('.' ∈ id.toList → ∀ c, ∃ g, (run d root entry ⟨true, c⟩).value = .ok g ∧
          (run d root entry ⟨false, c⟩).value = .ok g.withoutPackages) ∧
        ∀ p, ∃ g g', (run d root entry ⟨p, false⟩).value = .ok g ∧
          (run d root entry ⟨p, true⟩).value = .ok g' ∧
          g.nodes ⊆ g'.nodes ∧ g.links.map Link.ends ⊆ g'.links.map Link.ends := by
  cases hlocate : locate d root entry with
  | error e => exact .inl ⟨e, fun o => by simp [run, hlocate]⟩
  | ok found =>
    obtain ⟨P, id⟩ := found
    refine .inr ⟨P, id, rfl, ?_, ?_⟩
    · intro hdot c
      refine ⟨(graph P ⟨true, c⟩ id).value, value_run _ hlocate, ?_⟩
      rw [value_run _ hlocate, graph_withoutPackages (dotted_iff.2 hdot)]
    · intro p
      have hg := isClosure_graph P ⟨p, false⟩ id
      have hg' := isClosure_graph P ⟨p, true⟩ id
      exact ⟨_, _, value_run _ hlocate, value_run _ hlocate, hg.nodes_mono hg', hg.links_mono hg'⟩

end Trace

end ImportAtlas
