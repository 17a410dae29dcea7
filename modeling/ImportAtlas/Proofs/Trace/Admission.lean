-- SUMMARY: When a trace on a disk succeeds, and its graph as a closure among the places below the root.
import ImportAtlas.Proofs.Trace.Closure

/-! # Traces on a disk

A trace follows paths, and its graph is the closure of the entry for what following them finds. What
there is below the root can be told without following anything, from the places of the disk. The two
views differ on some ids, such as those that go up. But an id that a trace meets is the path of its
entry or was spelled by an address, and on these the views agree. -/

namespace ImportAtlas

open Project Disk

/-- What the places below a root tell. The empty id is the root itself, which is no module. -/
def Disk.view (d : Disk) (root : Place) : Project.View where
  text? id := if id = "" then none else (d.content? (placeFrom root id)).bind Content.text?
  isDir id := d.isDir (placeFrom root id)
  isFile id := d.isFile (placeFrom root id)

/-! ## Two views of a project -/

/-- The ids that a trace meets. -/
def Project.IsId (id : String) : Prop := id = "" ∨ Descends id

theorem Project.Descends.ne_empty {id : String} (h : Descends id) : id ≠ "" := by
  rintro rfl
  obtain ⟨-, front, last, hid, hlast⟩ := h
  have hsegments : segments '/' "" = [""] := rfl
  rw [hsegments] at hid
  have hempty : "" = last := by simpa using congrArg List.getLast? hid
  exact leadsOn_iff.1 hlast (.inl hempty.symm)

/-- Two views that tell the same of all ids that a trace meets. -/
structure Project.View.Agree (V W : Project.View) : Prop where
  text? {id : String} (h : IsId id) : V.text? id = W.text? id
  isDir {id : String} (h : Level id) : V.isDir id = W.isDir id
  isFile {id : String} (h : Descends id) : V.isFile id = W.isFile id

theorem Project.View.Agree.symm {V W : Project.View} (h : V.Agree W) : W.Agree V where
  text? hid := (h.text? hid).symm
  isDir hid := (h.isDir hid).symm
  isFile hid := (h.isFile hid).symm

theorem Content.text?_eq_some {c : Content} {source : String} :
    c.text? = some source ↔ c = .text source := by
  cases c <;> simp [Content.text?]

theorem Disk.agree_view (d : Disk) (root : Place) : (d.project root).view.Agree (d.view root) where
  text? {id} hid := by
    refine Option.ext fun source => ?_
    rw [text?_view]
    rcases hid with rfl | hid
    · simpa [Disk.view] using read_empty source
    · rw [read_eq_ok_iff hid]
      simp [Disk.view, hid.ne_empty, Option.bind_eq_some_iff, Content.text?_eq_some, Disk.project]
  isDir hid := isDir_eq hid
  isFile hid := isFile_eq hid

namespace Trace

variable {V W : Project.View} {o : Options} {f : String}

/-! ## Ids that are spelled -/

theorem Names.not_mem {parts : List String} (h : Names V o f parts) {part : String} (hpart : part ∈ parts) :
    '.' ∉ part.toList := by
  obtain ⟨source, i, -, -, -, rfl⟩ := h
  exact not_mem_of_mem_segments hpart

theorem not_mem_intercalate {parts : List String} (h : ∀ part ∈ parts, '.' ∉ part.toList) :
    '.' ∉ ("/".intercalate parts).toList := by
  induction parts with
  | nil => simp
  | cons part parts ih =>
    obtain ⟨hpart, hparts⟩ := List.forall_mem_cons.1 h
    cases parts with
    | nil => simpa using hpart
    | cons next parts =>
      have hrest := ih hparts
      simp only [String.intercalate_cons_cons, String.toList_append, List.mem_append, not_or]
      exact ⟨⟨hpart, by simp⟩, hrest⟩

theorem Asks.descends {id : String} (h : Asks V o f ⟨id, .project⟩) : Descends id := by
  cases h with
  | @module s name way h =>
    have hbase : '.' ∉ ("/".intercalate (s :: way)).toList :=
      not_mem_intercalate fun part hpart => h.not_mem (List.mem_append_left _ hpart)
    exact descends_append hbase (by simp) (by simp)
  | @initialiser s name way below h =>
    have hbase : '.' ∉ ("/".intercalate (s :: way) ++ "/").toList := by
      have hway := not_mem_intercalate fun part (hpart : part ∈ s :: way) =>
        h.not_mem (List.mem_append_left _ (List.mem_append_left _ hpart))
      simpa using hway
    have hsplit : "/".intercalate (s :: way) ++ "/__init__.py" =
        "/".intercalate (s :: way) ++ "/" ++ "__init__.py" := by
      rw [String.append_assoc]
      rfl
    rw [hsplit]
    exact descends_append hbase (by simp) (by simp)

theorem Reached.isId {entry u : String} (hentry : IsId entry) (h : Reached V o entry u) : IsId u := by
  cases h with
  | entry => exact hentry
  | step _ ht => exact .inr ht.descends

/-! ## Closures in two views -/

theorem Names.congr (h : V.Agree W) (hf : IsId f) {parts : List String} (hn : Names V o f parts) :
    Names W o f parts := by
  obtain ⟨source, i, htext, hi, hcounts, hparts⟩ := hn
  exact ⟨source, i, h.text? hf ▸ htext, hi, hcounts, hparts⟩

theorem Asks.congr (h : V.Agree W) (hf : IsId f) {t : Target} (ht : Asks V o f t) : Asks W o f t := by
  cases ht with
  | package hn hs hdir hshown =>
    have hlevel := level_of_not_mem (hn.not_mem List.mem_cons_self)
    exact .package (hn.congr h hf) hs (h.isDir hlevel ▸ hdir) hshown
  | module hn hs hdir =>
    have hlevel := level_of_not_mem (hn.not_mem List.mem_cons_self)
    exact .module (hn.congr h hf) hs (h.isDir hlevel ▸ hdir)
  | initialiser hn hs hdir hbelow hout hfile =>
    have hlevel := level_of_not_mem (hn.not_mem List.mem_cons_self)
    have hdescends := (Asks.initialiser hn hs hdir hbelow hout hfile).descends
    exact .initialiser (hn.congr h hf) hs (h.isDir hlevel ▸ hdir) hbelow hout (h.isFile hdescends ▸ hfile)

variable {entry : String}

theorem Reached.congr (h : V.Agree W) (hentry : IsId entry) {u : String} (hu : Reached V o entry u) :
    Reached W o entry u := by
  induction hu with
  | entry => exact .entry
  | step hu ht ih => exact .step ih (ht.congr h (hu.isId hentry))

/-- Views that agree have the same closures. -/
theorem IsClosure.congr (h : V.Agree W) (hentry : IsId entry) {g : Graph} (hg : IsClosure V o entry g) :
    IsClosure W o entry g := by
  have hreached {u : String} : Reached V o entry u ↔ Reached W o entry u :=
    ⟨.congr h hentry, .congr h.symm hentry⟩
  have hasks {u : String} {t : Target} : Reached V o entry u ∧ Asks V o u t ↔
      Reached W o entry u ∧ Asks W o u t := by
    rw [hreached]
    refine and_congr_right fun hu => ?_
    exact ⟨.congr h (hu.isId hentry), .congr h.symm (hu.isId hentry)⟩
  constructor
  · intro u v
    rw [hg.links]
    simp only [← exists_and_left, hasks]
  · intro n
    rw [hg.nodes]
    simp only [← and_assoc, hasks]

/-! ## Admission -/

/-- Why a trace is refused, as far as the disk shows it. -/
inductive Refuses (d : Disk) (root entry : String) : Error → Prop where
  | noRoot {e : DiskError} (h : d.resolve root = .error e) : Refuses d root entry (.noRoot root e)
  | noEntry {r : Place} {e : DiskError} (hr : d.resolve root = .ok r) (h : d.follow r entry = .error e) :
      Refuses d root entry (.noEntry entry e)
  | notFile {r p : Place} (hr : d.resolve root = .ok r) (hp : d.follow r entry = .ok p)
      (h : d.isFile p = false) : Refuses d root entry (.notFile entry)
  | outside {r p : Place} (hr : d.resolve root = .ok r) (hp : d.follow r entry = .ok p)
      (hfile : d.isFile p = true) (h : ¬ r <+: p) : Refuses d root entry (.outside entry (pathOf r))

/-- The root and the entry file are there, and `id` is the path from the one to the other. -/
structure Admits (d : Disk) (root entry : String) (r : Place) (id : String) : Prop where
  found : d.resolve root = .ok r
  file : ∃ names, d.follow r entry = .ok (r ++ names) ∧ d.isFile (r ++ names) = true ∧
    id = "/".intercalate names
  /-- below a directory the id leads to the entry file, too -/
  leads (h : d.isDir r = true) : d.follow r id = d.follow r entry

/-- What is refused is not admitted. -/
theorem Refuses.not_admits {d : Disk} {root entry id : String} {r : Place} {e : Error}
    (h : Refuses d root entry e) : ¬ Admits d root entry r id := by
  intro hadmits
  obtain ⟨names, hp, hfile, -⟩ := hadmits.file
  cases h with
  | noRoot h => cases hadmits.found.symm.trans h
  | noEntry hr h =>
    cases hadmits.found.symm.trans hr
    cases hp.symm.trans h
  | notFile hr hp' h =>
    cases hadmits.found.symm.trans hr
    cases hp.symm.trans hp'
    cases hfile.symm.trans h
  | outside hr hp' _ h =>
    cases hadmits.found.symm.trans hr
    cases hp.symm.trans hp'
    exact h (List.prefix_append r names)

/-- The path from the root to a file below it is an id, and leads there if the root is a directory. -/
theorem isId_of_isFile {d : Disk} {r : Place} {names : List String} (hnames : ∀ name ∈ names, IsName name)
    (hfile : d.isFile (r ++ names) = true) :
    IsId ("/".intercalate names) ∧
      (d.isDir r = true → d.follow r ("/".intercalate names) = .ok (r ++ names)) := by
  by_cases hne : names = []
  · subst hne
    rw [List.append_nil] at hfile
    refine ⟨.inl rfl, fun hdir => ?_⟩
    simp [Disk.isFile, content?, hdir] at hfile
  · have hdescends := descends_id hne hnames
    have hplace : placeFrom r ("/".intercalate names) = r ++ names := placeFrom_id hne hnames
    refine ⟨.inr hdescends, fun _ => ?_⟩
    rw [← hplace] at hfile ⊢
    exact (d.project r).find_of_isFile hdescends hfile

/-- A root and an entry file are located exactly as the disk admits them. -/
theorem refuses_or_admits (d : Disk) (root entry : String) :
    (∃ e, Refuses d root entry e ∧ locate d root entry = .error e) ∨
      ∃ r id, Admits d root entry r id ∧ IsId id ∧ locate d root entry = .ok (d.project r, id) := by
  unfold locate
  cases hr : d.resolve root with
  | error e => exact .inl ⟨_, .noRoot hr, rfl⟩
  | ok r =>
    cases hp : d.follow r entry with
    | error e => exact .inl ⟨_, .noEntry hr hp, by simp only [hp]⟩
    | ok p =>
      cases hfile : d.isFile p with
      | false => exact .inl ⟨_, .notFile hr hp hfile, by simp [hp, hfile]⟩
      | true =>
        by_cases hbelow : r <+: p
        · obtain ⟨names, rfl, hnames⟩ := exists_names_of_follow hp hbelow
          obtain ⟨hid, hleads⟩ := isId_of_isFile hnames hfile
          refine .inr ⟨r, _, ⟨hr, ⟨names, hp, hfile, rfl⟩, fun hdir => ?_⟩, hid, ?_⟩
          · rw [hleads hdir, hp]
          · simp [hp, hfile, idFrom?, List.isPrefixOf_iff_prefix]
        · refine .inl ⟨_, .outside hr hp hfile hbelow, ?_⟩
          simp [hp, hfile, idFrom?, List.isPrefixOf_iff_prefix, hbelow]

/-- A trace always ends: with an error if the disk shows a reason to refuse it, and else with the closure
of the entry among the places below the root. -/
theorem run_error_or_isClosure (d : Disk) (root entry : String) (o : Options) :
    (∃ e, Refuses d root entry e ∧ (run d root entry o).value = .error e) ∨
      ∃ r id g, Admits d root entry r id ∧ (run d root entry o).value = .ok g ∧
        IsClosure (d.view r) o id g := by
  rcases refuses_or_admits d root entry with ⟨e, hrefuses, hlocate⟩ | ⟨r, id, hadmits, hid, hlocate⟩
  · exact .inl ⟨e, hrefuses, by simp [run, hlocate]⟩
  · have hclosure := isClosure_graph (d.project r) o id
    exact .inr ⟨r, id, _, hadmits, value_run o hlocate, hclosure.congr (d.agree_view r) hid⟩

end Trace

end ImportAtlas
