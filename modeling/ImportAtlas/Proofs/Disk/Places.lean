-- SUMMARY: The places that paths lead to, and what the look-ups of a project find there.
import ImportAtlas.Disk.Project
import Mathlib.Data.List.Basic

/-! # Places

A path is followed name by name, and any name can stop it. For a path that never goes up the outcome
can be told from the place alone that its names spell: there is a directory exactly if the path leads
to a directory, and a file exactly if a path that ends in a name leads to a file. So the look-ups of a
project, which follow paths, are questions about places of the disk. -/

namespace ImportAtlas

/-! ## Parts of a text -/

theorem segmentChars_eq_splitOn (sep : Char) (cs : List Char) :
    segmentChars sep cs = cs.splitOn sep := by
  induction cs with
  | nil => rfl
  | cons c cs ih =>
    rw [List.splitOn] at ih ⊢
    rw [segmentChars, List.splitOnP_cons_eq_if_modifyHead, ih]
    by_cases hc : c = sep
    · simp [hc]
    · cases hparts : cs.splitOnP (· == sep) with
      | nil => exact absurd hparts (List.splitOnP_ne_nil _ _)
      | cons part parts => simp [hc]

/-- Parts that do not hold the separator are found again in the text that joins them. -/
theorem segments_intercalate {parts : List String} (hne : parts ≠ [])
    (h : ∀ part ∈ parts, '/' ∉ part.toList) : segments '/' ("/".intercalate parts) = parts := by
  have hmap : (parts.map String.toList).map String.ofList = parts := by
    simp [Function.comp_def]
  have hjoin : ("/".intercalate parts).toList = ['/'].intercalate (parts.map String.toList) :=
    String.toList_intercalate
  rw [segments, segmentChars_eq_splitOn, hjoin, List.splitOn_intercalate, hmap]
  · simpa using h
  · simpa using hne

theorem mem_of_mem_segmentChars {sep c : Char} {cs part : List Char} (h : part ∈ segmentChars sep cs)
    (hc : c ∈ part) : c ∈ cs ∧ c ≠ sep := by
  induction cs generalizing part with
  | nil =>
    rw [segmentChars, List.mem_singleton] at h
    simp [h] at hc
  | cons x cs ih =>
    simp only [segmentChars] at h
    split at h
    next =>
      rcases List.mem_cons.1 h with rfl | h
      · cases hc
      · exact (ih h hc).imp_left (List.mem_cons_of_mem _)
    next hx =>
      split at h
      next hnil => exact absurd hnil (segmentChars_ne_nil sep cs)
      next first parts hparts =>
        rcases List.mem_cons.1 h with rfl | h
        · rcases List.mem_cons.1 hc with rfl | hc
          · exact ⟨List.mem_cons_self, hx⟩
          · exact (ih (hparts ▸ List.mem_cons_self) hc).imp_left (List.mem_cons_of_mem _)
        · exact (ih (hparts ▸ List.mem_cons_of_mem _ h) hc).imp_left (List.mem_cons_of_mem _)

/-- A part between separators holds characters of the text, and no separator. -/
theorem mem_of_mem_segments {sep c : Char} {s part : String} (h : part ∈ segments sep s)
    (hc : c ∈ part.toList) : c ∈ s.toList ∧ c ≠ sep := by
  obtain ⟨cs, hcs, rfl⟩ := List.mem_map.1 h
  exact mem_of_mem_segmentChars hcs (by simpa using hc)

theorem not_mem_of_mem_segments {sep : Char} {s part : String} (h : part ∈ segments sep s) :
    sep ∉ part.toList := fun hsep => (mem_of_mem_segments h hsep).2 rfl

theorem segmentChars_append {sep : Char} {b : List Char} (h : sep ∉ b) (a : List Char) :
    ∃ front last, segmentChars sep a = front ++ [last] ∧
      segmentChars sep (a ++ b) = front ++ [last ++ b] := by
  induction a with
  | nil =>
    refine ⟨[], [], rfl, ?_⟩
    rw [List.nil_append, segmentChars_eq_splitOn, List.splitOn]
    exact List.splitOnP_eq_singleton fun c hc => by simpa using fun hsep : c = sep => h (hsep ▸ hc)
  | cons c a ih =>
    obtain ⟨front, last, ha, hab⟩ := ih
    rw [List.cons_append, segmentChars, segmentChars, ha, hab]
    split
    next => exact ⟨[] :: front, last, rfl, rfl⟩
    next =>
      cases front with
      | nil => exact ⟨[], c :: last, rfl, rfl⟩
      | cons part front => exact ⟨(c :: part) :: front, last, rfl, rfl⟩

/-- What holds no separator is added to the last part. -/
theorem segments_append {sep : Char} {b : String} (h : sep ∉ b.toList) (a : String) :
    ∃ front last, segments sep a = front ++ [last] ∧
      segments sep (a ++ b) = front ++ [last ++ b] := by
  obtain ⟨front, last, ha, hab⟩ := segmentChars_append h a.toList
  refine ⟨front.map String.ofList, String.ofList last, ?_, ?_⟩
  · simp [segments, ha]
  · simp [segments, hab, String.ofList_append]

/-! ## Directories and files -/

namespace Disk

variable {d : Disk} {p q here : Place}

theorem isDir_of_isPrefix (h : d.isDir q = true) (hp : p <+: q) : d.isDir p = true := by
  simp only [isDir, Bool.or_eq_true, List.any_eq_true, Bool.and_eq_true, List.isEmpty_iff,
    List.isPrefixOf_iff_prefix, bne_iff_ne] at h ⊢
  rcases h with ((hnil | hhome) | ⟨r, hr, hq⟩) | ⟨f, hf, hq, hne⟩
  · exact .inl (.inl (.inl (List.prefix_nil.1 (hnil ▸ hp))))
  · exact .inl (.inl (.inr (hp.trans hhome)))
  · exact .inl (.inr ⟨r, hr, hp.trans hq⟩)
  · refine .inr ⟨f, hf, hp.trans hq, ?_⟩
    rintro rfl
    exact hne (hq.eq_of_length_le hp.length_le)

/-- The way to a file leads through directories. -/
theorem isDir_of_isFile {name : String} (h : d.isFile (p ++ [name]) = true) : d.isDir p = true := by
  rw [isFile, content?] at h
  split at h
  next hdir => exact isDir_of_isPrefix hdir (List.prefix_append p [name])
  next =>
    rw [Option.isSome_map, List.find?_isSome] at h
    obtain ⟨f, hf, hp⟩ := h
    have hplace : f.1 = p ++ [name] := by simpa using hp
    have hbelow : p.isPrefixOf f.1 && p != f.1 := by simp [hplace]
    simp only [isDir, Bool.or_eq_true]
    exact .inr (List.any_eq_true.2 ⟨f, hf, hbelow⟩)

/-! ## Following names -/

theorem leadsOn_iff {name : String} : leadsOn name = true ↔ ¬ (name = "" ∨ name = ".") := by
  simp [leadsOn]

theorem walk_stay {name : String} {names : List String} (hdir : d.isDir here = true)
    (h : name = "" ∨ name = ".") : d.walk here (name :: names) = d.walk here names := by
  rw [walk, if_neg (by simp [hdir]), if_pos h]

theorem walk_down {name : String} {names : List String} (hdir : d.isDir here = true)
    (hleads : leadsOn name = true) (hup : name ≠ "..")
    (h : d.isDir (here ++ [name]) = true ∨ d.isFile (here ++ [name]) = true) :
    d.walk here (name :: names) = d.walk (here ++ [name]) names := by
  rw [walk, if_neg (by simp [hdir]), if_neg (leadsOn_iff.1 hleads), if_neg hup]
  exact if_pos (Bool.or_eq_true_iff.2 h)

theorem walk_append (here : Place) (front names : List String) :
    d.walk here (front ++ names) = (d.walk here front).bind (d.walk · names) := by
  induction front generalizing here with
  | nil => rfl
  | cons name front ih =>
    rw [List.cons_append, walk, walk]
    split
    next => rfl
    next =>
      split
      next => exact ih here
      next =>
        split
        next => exact ih here.dropLast
        next =>
          simp only
          split
          next => exact ih (here ++ [name])
          next => rfl

/-- Names that do not go up lead to the place that they spell. -/
theorem eq_of_walk {names : List String} (hup : ".." ∉ names) (h : d.walk here names = .ok p) :
    p = here ++ names.filter leadsOn := by
  induction names generalizing here with
  | nil => simpa [walk, eq_comm] using h
  | cons name names ih =>
    obtain ⟨hname, hup⟩ := not_or.1 (mt List.mem_cons.2 hup)
    rw [walk] at h
    split at h
    next => cases h
    next =>
      split at h
      next hstay =>
        rw [ih hup h, List.filter_cons_of_neg fun hleads => leadsOn_iff.1 hleads hstay]
      next hstay =>
        rw [if_neg (Ne.symm hname)] at h
        simp only at h
        split at h
        next =>
          rw [ih hup h, List.filter_cons_of_pos (leadsOn_iff.2 hstay)]
          exact (List.append_cons here name _).symm
        next => cases h

/-- A directory is found by all names that spell its place. -/
theorem walk_of_isDir {names : List String} (hup : ".." ∉ names)
    (h : d.isDir (here ++ names.filter leadsOn) = true) :
    d.walk here names = .ok (here ++ names.filter leadsOn) := by
  induction names generalizing here with
  | nil => simp [walk]
  | cons name names ih =>
    obtain ⟨hname, hup⟩ := not_or.1 (mt List.mem_cons.2 hup)
    have hhere : d.isDir here = true := isDir_of_isPrefix h (List.prefix_append here _)
    by_cases hstay : name = "" ∨ name = "."
    · rw [List.filter_cons_of_neg fun hleads => leadsOn_iff.1 hleads hstay] at h ⊢
      rw [walk_stay hhere hstay, ih hup h]
    · have hleads := leadsOn_iff.2 hstay
      have hcons : here ++ (name :: names).filter leadsOn = here ++ [name] ++ names.filter leadsOn := by
        rw [List.filter_cons_of_pos hleads]
        exact List.append_cons here name _
      rw [hcons] at h ⊢
      have hthere : d.isDir (here ++ [name]) = true := isDir_of_isPrefix h (List.prefix_append _ _)
      rw [walk_down hhere hleads (Ne.symm hname) (.inl hthere), ih hup h]

/-- A file is found by names that spell its place and end in its own name. -/
theorem walk_of_isFile {front : List String} {last : String} (hup : ".." ∉ front ++ [last])
    (hlast : leadsOn last = true) (h : d.isFile (here ++ (front ++ [last]).filter leadsOn) = true) :
    d.walk here (front ++ [last]) = .ok (here ++ (front ++ [last]).filter leadsOn) := by
  have hsplit : here ++ (front ++ [last]).filter leadsOn =
      here ++ front.filter leadsOn ++ [last] := by simp [hlast]
  obtain ⟨hfront, hne⟩ : ".." ∉ front ∧ ".." ≠ last := by simpa [not_or] using hup
  rw [hsplit] at h ⊢
  have hdir := isDir_of_isFile h
  have hstep : d.walk (here ++ front.filter leadsOn) [last] =
      .ok (here ++ front.filter leadsOn ++ [last]) :=
    walk_down hdir hlast (Ne.symm hne) (.inr h)
  rw [walk_append, walk_of_isDir hfront hdir]
  exact hstep

/-- Wherever names lead, the way there is a part of the place they start from and then names that were
followed. -/
theorem exists_eq_of_walk {names : List String} (h : d.walk here names = .ok p) :
    ∃ k below, p = here.take k ++ below ∧
      ∀ name ∈ below, name ∈ names ∧ leadsOn name = true ∧ name ≠ ".." := by
  induction names generalizing here with
  | nil =>
    obtain rfl := Except.ok.inj h
    exact ⟨here.length, [], by simp, by simp⟩
  | cons name names ih =>
    rw [walk] at h
    split at h
    next => cases h
    next =>
      split at h
      next =>
        obtain ⟨k, below, hp, hbelow⟩ := ih h
        exact ⟨k, below, hp, fun n hn => (hbelow n hn).imp_left (List.mem_cons_of_mem _)⟩
      next hstay =>
        split at h
        next =>
          obtain ⟨k, below, hp, hbelow⟩ := ih h
          refine ⟨min k (here.length - 1), below, ?_, ?_⟩
          · rw [hp, List.dropLast_eq_take, List.take_take]
          · exact fun n hn => (hbelow n hn).imp_left (List.mem_cons_of_mem _)
        next hup =>
          simp only at h
          split at h
          next =>
            obtain ⟨k, below, hp, hbelow⟩ := ih h
            refine ⟨k, [name].take (k - here.length) ++ below, ?_, ?_⟩
            · rw [hp, List.take_append, List.append_assoc]
            · intro n hn
              rcases List.mem_append.1 hn with hn | hn
              · obtain rfl := List.mem_singleton.1 (List.mem_of_mem_take hn)
                exact ⟨List.mem_cons_self, leadsOn_iff.2 hstay, hup⟩
              · exact (hbelow n hn).imp_left (List.mem_cons_of_mem _)
          next => cases h

/-- The place that the names of a path spell, from the place where it starts. -/
def placeFrom (start : Place) (path : String) : Place :=
  (if isAbsolute path then [] else start) ++ (segments '/' path).filter leadsOn

end Disk

/-! ## Look-ups of a project -/

namespace Project

open Disk

variable {P : Project} {id : String}

/-- A path that does not go up. -/
def Level (id : String) : Prop := ".." ∉ segments '/' id

/-- A path that does not go up and ends in a name. -/
def Descends (id : String) : Prop :=
  Level id ∧ ∃ front last, segments '/' id = front ++ [last] ∧ leadsOn last = true

theorem level_of_not_mem (h : '.' ∉ id.toList) : Level id := by
  intro hup
  have hdot : '.' ∈ "..".toList := by simp
  exact h (mem_of_mem_segments hup hdot).1

/-- A path without dots and then a name longer than two. -/
theorem descends_append {a b : String} (ha : '.' ∉ a.toList) (hb : '/' ∉ b.toList)
    (hlong : 2 < b.toList.length) : Descends (a ++ b) := by
  obtain ⟨front, last, hfront, hsegments⟩ := segments_append hb a
  have hne {name : String} (hname : name.toList.length ≤ 2) : last ++ b ≠ name := by
    rintro rfl
    simp only [String.toList_append, List.length_append] at hname
    omega
  refine ⟨?_, front, last ++ b, hsegments, ?_⟩
  · rw [Level, hsegments, List.mem_append, List.mem_singleton, not_or]
    refine ⟨fun hup => level_of_not_mem ha ?_, Ne.symm (hne (by simp))⟩
    rw [hfront]
    exact List.mem_append_left _ hup
  · exact leadsOn_iff.2 (not_or.2 ⟨hne (by simp), hne (by simp)⟩)

theorem eq_of_find {p : Place} (h : Level id) (hfind : P.find id = .ok p) :
    p = placeFrom P.root id := eq_of_walk h hfind

theorem find_of_isDir (h : Level id) (hdir : P.disk.isDir (placeFrom P.root id) = true) :
    P.find id = .ok (placeFrom P.root id) := walk_of_isDir h hdir

theorem find_of_isFile (h : Descends id) (hfile : P.disk.isFile (placeFrom P.root id) = true) :
    P.find id = .ok (placeFrom P.root id) := by
  obtain ⟨hup, front, last, hid, hlast⟩ := h
  rw [Level, hid] at hup
  rw [placeFrom, hid] at hfile
  rw [find, follow, placeFrom, hid]
  exact walk_of_isFile hup hlast hfile

/-- A directory of a project is a directory of the disk. -/
theorem isDir_eq (h : Level id) : P.isDir id = P.disk.isDir (placeFrom P.root id) := by
  unfold isDir
  split
  next e hfind =>
    cases hdir : P.disk.isDir (placeFrom P.root id) with
    | false => rfl
    | true => cases hfind.symm.trans (find_of_isDir h hdir)
  next p hfind => rw [eq_of_find h hfind]

/-- A file of a project is a file of the disk. -/
theorem isFile_eq (h : Descends id) : P.isFile id = P.disk.isFile (placeFrom P.root id) := by
  unfold isFile
  split
  next e hfind =>
    cases hfile : P.disk.isFile (placeFrom P.root id) with
    | false => rfl
    | true => cases hfind.symm.trans (find_of_isFile h hfile)
  next p hfind => rw [eq_of_find h.1 hfind]

/-- A module can be read exactly if the disk has a text at its place. -/
theorem read_eq_ok_iff (h : Descends id) {source : String} :
    P.read id = .ok source ↔ P.disk.content? (placeFrom P.root id) = some (.text source) := by
  rw [← textAt_eq_ok_iff]
  constructor
  · intro hread
    unfold read at hread
    split at hread
    next => cases hread
    next p hfind => rwa [eq_of_find h.1 hfind] at hread
  · intro htext
    have hfile : P.disk.isFile (placeFrom P.root id) = true := by
      rw [Disk.isFile, textAt_eq_ok_iff.1 htext]
      rfl
    rw [read, find_of_isFile h hfile]
    exact htext

/-- A file answers to every path that leads to it, but not as a directory. -/
example :
    let P : Project := ⟨{ home := [], files := [(["p", "a", "b.py"], .text "")] }, ["p"]⟩
    ["a/b.py", "a//b.py", "./a/b.py", "a/../a/b.py", "/p/a/b.py", "a/b.py/"].map P.isFile =
      [true, true, true, true, true, false] := by
  decide +kernel

/-- The root of a project is not read as a module, not even if it is a file. -/
theorem read_empty (source : String) : P.read "" ≠ .ok source := by
  have hfind : P.find "" = P.disk.walk P.root [""] := rfl
  intro hread
  rw [read, hfind] at hread
  cases hdir : P.disk.isDir P.root with
  | false => simp [walk, hdir] at hread
  | true => simp [walk, hdir, textAt, content?] at hread

end Project

/-! ## Ids of places -/

namespace Disk

/-- What a place is made of: no slash, and no name that has a meaning of its own. -/
structure IsName (name : String) : Prop where
  slash : '/' ∉ name.toList
  leads : leadsOn name = true
  up : name ≠ ".."

variable {d : Disk} {root p : Place} {path : String} {names : List String}

/-- A path that ends below the root adds names to it. -/
theorem exists_names_of_follow (h : d.follow root path = .ok p) (hroot : root <+: p) :
    ∃ names, p = root ++ names ∧ ∀ name ∈ names, IsName name := by
  obtain ⟨names, rfl⟩ := hroot
  obtain ⟨k, below, hp, hbelow⟩ : ∃ k below, root ++ names = root.take k ++ below ∧
      ∀ name ∈ below, name ∈ segments '/' path ∧ leadsOn name = true ∧ name ≠ ".." := by
    rw [follow] at h
    split at h
    next =>
      obtain ⟨k, below, hp, hbelow⟩ := exists_eq_of_walk h
      exact ⟨0, below, by simpa using hp, hbelow⟩
    next => exact exists_eq_of_walk h
  refine ⟨names, rfl, fun name hname => ?_⟩
  -- the root reaches at least as far as the part of it that was kept
  have hnames : names = below.drop (root.length - (root.take k).length) := by
    have hdrop := congrArg (List.drop root.length) hp
    rwa [List.drop_left, List.drop_append, List.drop_eq_nil_of_le (List.length_take_le' k root),
      List.nil_append] at hdrop
  rw [hnames] at hname
  obtain ⟨hmem, hleads, hup⟩ := hbelow name (List.mem_of_mem_drop hname)
  exact ⟨not_mem_of_mem_segments hmem, hleads, hup⟩

theorem empty_mem_of_isAbsolute (h : isAbsolute path = true) : "" ∈ segments '/' path := by
  rw [isAbsolute, beq_iff_eq] at h
  obtain ⟨cs, hcs⟩ := List.head?_eq_some_iff.1 h
  rw [segments, hcs]
  simp [segmentChars]

section

variable (hne : names ≠ []) (h : ∀ name ∈ names, IsName name)
include hne h

theorem segments_id : segments '/' ("/".intercalate names) = names :=
  segments_intercalate hne fun name hname => (h name hname).slash

/-- The id of a place leads to it. -/
theorem placeFrom_id : placeFrom root ("/".intercalate names) = root ++ names := by
  have hrelative : isAbsolute ("/".intercalate names) = false := by
    refine Bool.eq_false_iff.2 fun habs => ?_
    have hempty := empty_mem_of_isAbsolute habs
    rw [segments_id hne h] at hempty
    exact leadsOn_iff.1 (h "" hempty).leads (.inl rfl)
  rw [placeFrom, hrelative, segments_id hne h, List.filter_eq_self.2 fun name hname => (h name hname).leads]
  rfl

theorem descends_id : Project.Descends ("/".intercalate names) := by
  obtain ⟨front, last, rfl⟩ := (List.eq_nil_or_concat' names).resolve_left hne
  refine ⟨?_, front, last, segments_id hne h, (h last (by simp)).leads⟩
  rw [Project.Level, segments_id hne h]
  exact fun hup => (h ".." hup).up rfl

end

end Disk

end ImportAtlas
