-- SUMMARY: What a module asks for, said as rules, and the steps that its text makes of it.
import ImportAtlas.Proofs.Disk.Places
import ImportAtlas.Trace.Walk

/-! # What a module asks for

`Asks` says which targets belong to a module, one rule for each kind of target, without the order in
which they are met. The rules speak of a view of a project, that is of what is known of it by ids. The
steps that a walk takes for a module link it to exactly the targets in the view that its look-ups give.

A package from outside has a name without a dot, while the id of a module ends in one and a suffix. So
the id of a target tells its kind. -/

namespace ImportAtlas

/-- What can be known of a project by ids. -/
structure Project.View where
  /-- the text of a module that can be read -/
  text? : String → Option String
  isDir : String → Bool
  isFile : String → Bool

/-- What the look-ups of a project tell. -/
def Project.view (P : Project) : Project.View where
  text? id := (P.read id).toOption
  isDir := P.isDir
  isFile := P.isFile

theorem Project.text?_view {P : Project} {id source : String} :
    P.view.text? id = some source ↔ P.read id = .ok source := by
  cases hread : P.read id <;> simp [Project.view, Except.toOption, hread]

namespace Trace

/-! ## Rules -/

/-- A module that can be read has an import that counts, and the address of that import has the given
parts. -/
def Names (V : Project.View) (o : Options) (f : String) (parts : List String) : Prop :=
  ∃ source i, V.text? f = some source ∧ i ∈ Imports.scan source ∧
    (i.conditional = true → o.conditional = true) ∧ segments '.' i.address = parts

/-- What a module asks for. -/
inductive Asks (V : Project.View) (o : Options) (f : String) : Target → Prop where
  /-- a package from outside, if the first part of an address is no directory of the project -/
  | package {s : String} {rest : List String} (h : Names V o f (s :: rest)) (hs : s ≠ "")
      (hdir : V.isDir s = false) (hshown : o.thirdParty = true) : Asks V o f ⟨s, .thirdParty⟩
  /-- the module that all parts but the last spell -/
  | module {s name : String} {way : List String} (h : Names V o f (s :: way ++ [name])) (hs : s ≠ "")
      (hdir : V.isDir s = true) : Asks V o f ⟨"/".intercalate (s :: way) ++ ".py", .project⟩
  /-- the initialiser of a package above that module, if there is one and the asking module does not
  lie in that package -/
  | initialiser {s name : String} {way below : List String}
      (h : Names V o f (s :: way ++ below ++ [name])) (hs : s ≠ "") (hdir : V.isDir s = true)
      (hbelow : below ≠ [])
      (hout : ¬ Disk.components ("/".intercalate (s :: way)) <+: Disk.components f)
      (hfile : V.isFile ("/".intercalate (s :: way) ++ "/__init__.py") = true) :
      Asks V o f ⟨"/".intercalate (s :: way) ++ "/__init__.py", .project⟩

variable {V : Project.View} {o : Options} {f : String}

/-! ## Kinds -/

theorem Asks.kind_eq {t : Target} (h : Asks V o f t) :
    t.kind = if '.' ∈ t.id.toList then .project else .thirdParty := by
  cases h with
  | @package s rest h =>
    obtain ⟨source, i, -, -, -, hparts⟩ := h
    have hdot : '.' ∉ s.toList := not_mem_of_mem_segments (hparts ▸ List.mem_cons_self)
    simp [hdot]
  | module => simp
  | initialiser => simp

/-- Two modules that ask for one id ask for one target. -/
theorem Asks.unique {f' : String} {t t' : Target} (h : Asks V o f t) (h' : Asks V o f' t')
    (hid : t.id = t'.id) : t = t' := by
  obtain ⟨id, kind⟩ := t
  obtain ⟨id', kind'⟩ := t'
  have hkind := h.kind_eq
  have hkind' := h'.kind_eq
  simp only at hid hkind hkind'
  subst hid
  rw [hkind, hkind']

theorem Asks.kind_ne_root {t : Target} (h : Asks V o f t) : t.kind ≠ .root := by
  rw [h.kind_eq]
  split <;> simp

/-! ## Steps -/

variable {P : Project}

theorem targetAt?_last (way : List String) (name : String) :
    targetAt? P f (way ++ [name]) way.length = some ⟨"/".intercalate way ++ ".py", .project⟩ := by
  simp [targetAt?]

theorem targetAt?_above (way : List String) {below : List String} {name : String} {t : Target}
    (hbelow : below ≠ []) :
    targetAt? P f (way ++ below ++ [name]) way.length = some t ↔
      ¬ Disk.components ("/".intercalate way) <+: Disk.components f ∧
        P.isFile ("/".intercalate way ++ "/__init__.py") = true ∧
        t = ⟨"/".intercalate way ++ "/__init__.py", .project⟩ := by
  have hlength := List.length_pos_iff.2 hbelow
  have hne : way.length + 1 ≠ (way ++ below ++ [name]).length := by
    simp only [List.length_append, List.length_singleton]
    omega
  have htake : (way ++ below ++ [name]).take way.length = way := by
    simp [List.append_assoc]
  simp only [targetAt?, if_neg hne, htake, liesIn, List.isPrefixOf_iff_prefix]
  by_cases hout : Disk.components ("/".intercalate way) <+: Disk.components f
  · simp [hout]
  · by_cases hfile : P.isFile ("/".intercalate way ++ "/__init__.py") = true
    · simp [hout, hfile, eq_comm]
    · simp [hout, hfile]

/-- The targets inside the project stand at the depths of an address, from its first part on and short
of its last. -/
theorem mem_targets_of_isDir {address s : String} {rest : List String} {t : Target}
    (hparts : segments '.' address = s :: rest) (hs : s ≠ "") (hdir : P.isDir s = true) :
    t ∈ targets P o f address ↔
      ∃ depth, depth < rest.length ∧ targetAt? P f (s :: rest) (depth + 1) = some t := by
  simp only [targets, hparts, List.head?_cons, if_neg hs, hdir, if_true, List.length_cons,
    Nat.add_sub_cancel, List.mem_filterMap, List.mem_range'_1]
  constructor
  · rintro ⟨depth, ⟨hpos, hlt⟩, ht⟩
    obtain ⟨depth, rfl⟩ := Nat.exists_eq_add_of_le' hpos
    exact ⟨depth, by omega, ht⟩
  · rintro ⟨depth, hlt, ht⟩
    exact ⟨depth + 1, by omega, ht⟩

theorem mem_targets_of_not_isDir {address s : String} {rest : List String} {t : Target}
    (hparts : segments '.' address = s :: rest) (hs : s ≠ "") (hdir : P.isDir s = false) :
    t ∈ targets P o f address ↔ o.thirdParty = true ∧ t = ⟨s, .thirdParty⟩ := by
  simp only [targets, hparts, List.head?_cons, if_neg hs, hdir, Bool.false_eq_true, if_false]
  cases o.thirdParty <;> simp

theorem not_mem_targets_of_empty {address : String} {rest : List String} {t : Target}
    (hparts : segments '.' address = "" :: rest) : t ∉ targets P o f address := by
  simp [targets, hparts]

/-- The parts of an address up to one depth, those below it, and the last. -/
theorem exists_parts {rest : List String} {depth : Nat} (h : depth < rest.length) :
    ∃ way below name, rest = way ++ below ++ [name] ∧ way.length = depth := by
  have hdrop : rest.drop depth ≠ [] := by
    simp only [ne_eq, List.drop_eq_nil_iff]
    omega
  obtain ⟨below, name, hbelow⟩ := (rest.drop depth).eq_nil_or_concat.resolve_left hdrop
  refine ⟨rest.take depth, below, name, ?_, ?_⟩
  · rw [List.append_assoc, ← List.concat_eq_append, ← hbelow, List.take_append_drop]
  · rw [List.length_take]
    omega

theorem asks_of_mem_targets {source : String} {i : Imports.Import} {t : Target}
    (hread : P.read f = .ok source) (hi : i ∈ Imports.scan source)
    (hcounts : i.conditional = true → o.conditional = true) (ht : t ∈ targets P o f i.address) :
    Asks P.view o f t := by
  have hnames {parts : List String} (hparts : segments '.' i.address = parts) : Names P.view o f parts :=
    ⟨source, i, Project.text?_view.2 hread, hi, hcounts, hparts⟩
  cases hparts : segments '.' i.address with
  | nil => simp [targets, hparts] at ht
  | cons s rest =>
    have hs : s ≠ "" := by
      intro hs
      exact not_mem_targets_of_empty (hs ▸ hparts) ht
    cases hdir : P.isDir s with
    | false =>
      obtain ⟨hshown, rfl⟩ := (mem_targets_of_not_isDir hparts hs hdir).1 ht
      exact .package (hnames hparts) hs hdir hshown
    | true =>
      obtain ⟨depth, hdepth, hat⟩ := (mem_targets_of_isDir hparts hs hdir).1 ht
      obtain ⟨way, below, name, rfl, rfl⟩ := exists_parts hdepth
      by_cases hbelow : below = []
      · subst hbelow
        rw [List.append_nil] at hat hparts
        have hlast := targetAt?_last (P := P) (f := f) (s :: way) name
        cases hlast.symm.trans hat
        exact .module (hnames hparts) hs hdir
      · obtain ⟨hout, hfile, rfl⟩ := (targetAt?_above (s :: way) hbelow).1 hat
        exact .initialiser (hnames hparts) hs hdir hbelow hout hfile

theorem exists_mem_targets_of_asks {t : Target} (h : Asks P.view o f t) :
    ∃ source i, P.read f = .ok source ∧ i ∈ Imports.scan source ∧
      (i.conditional = true → o.conditional = true) ∧ t ∈ targets P o f i.address := by
  cases h with
  | package h hs hdir hshown =>
    obtain ⟨source, i, htext, hi, hcounts, hparts⟩ := h
    have hread := Project.text?_view.1 htext
    exact ⟨source, i, hread, hi, hcounts, (mem_targets_of_not_isDir hparts hs hdir).2 ⟨hshown, rfl⟩⟩
  | @module s name way h hs hdir =>
    obtain ⟨source, i, htext, hi, hcounts, hparts⟩ := h
    have hread := Project.text?_view.1 htext
    have hparts' : segments '.' i.address = s :: (way ++ [name]) := hparts
    refine ⟨source, i, hread, hi, hcounts, (mem_targets_of_isDir hparts' hs hdir).2 ⟨way.length, ?_, ?_⟩⟩
    · simp
    · exact targetAt?_last (s :: way) name
  | @initialiser s name way below h hs hdir hbelow hout hfile =>
    obtain ⟨source, i, htext, hi, hcounts, hparts⟩ := h
    have hread := Project.text?_view.1 htext
    have hparts' : segments '.' i.address = s :: (way ++ below ++ [name]) := hparts
    refine ⟨source, i, hread, hi, hcounts, (mem_targets_of_isDir hparts' hs hdir).2 ⟨way.length, ?_, ?_⟩⟩
    · simp only [List.length_append, List.length_singleton]
      omega
    · exact (targetAt?_above (s :: way) hbelow).2 ⟨hout, hfile, rfl⟩

theorem link_mem_importSteps {i : Imports.Import} {t : Target} :
    .link t ∈ importSteps P o f i ↔
      (i.conditional = true → o.conditional = true) ∧ t ∈ targets P o f i.address := by
  cases hi : i.conditional <;> cases ho : o.conditional <;> simp [importSteps, hi, ho]

/-- The text of a module links it to what it asks for. -/
theorem exists_link_mem_sourceSteps_iff {t : Target} :
    (∃ source, P.read f = .ok source ∧ .link t ∈ sourceSteps P o f source) ↔ Asks P.view o f t := by
  simp only [sourceSteps, List.mem_flatMap, link_mem_importSteps]
  constructor
  · rintro ⟨source, hread, i, hi, hcounts, ht⟩
    exact asks_of_mem_targets hread hi hcounts ht
  · intro h
    obtain ⟨source, i, hread, hi, hcounts, ht⟩ := exists_mem_targets_of_asks h
    exact ⟨source, hread, i, hi, hcounts, ht⟩

end Trace

end ImportAtlas
