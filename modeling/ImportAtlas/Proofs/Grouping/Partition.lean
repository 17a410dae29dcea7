-- SUMMARY: The groups of a graph sort its nodes by folder, so that every node is shown itself or is a member of exactly one group.
import ImportAtlas.Proofs.Grouping.History
import Mathlib.Data.List.TakeWhile

/-! # Sorting nodes into groups

A node lies in the folder before the last `/` of its name. The folders that two nodes share form groups,
in the order in which they are first seen, and a group has all nodes of its folder, in the order of the
graph. The grouped view has the nodes that are left over and one node for each group, so nothing is
lost and nothing is shown twice. Ids may repeat: what is sorted are the nodes of the list, one by one. -/

namespace ImportAtlas

/-! ## Folders -/

theorem folderChars_append {before last : List Char} (h : '/' ∉ last) :
    folderChars (before ++ '/' :: last) = before := by
  have hdrop : (last.reverse ++ '/' :: before.reverse).dropWhile (· != '/') =
      '/' :: before.reverse := by
    rw [List.dropWhile_append_of_pos]
    · simp
    · intro c hc
      have hne : c ≠ '/' := by
        rintro rfl
        exact h (List.mem_reverse.mp hc)
      simpa using hne
  rw [folderChars, List.reverse_append, List.reverse_cons, List.append_assoc]
  simp [hdrop]

theorem folderChars_of_not_mem {name : List Char} (h : '/' ∉ name) : folderChars name = [] := by
  have hdrop : name.reverse.dropWhile (· != '/') = [] := by
    apply List.dropWhile_eq_nil_iff.mpr
    intro c hc
    have hne : c ≠ '/' := by
      rintro rfl
      exact h (List.mem_reverse.mp hc)
    simpa using hne
  rw [folderChars, hdrop]
  rfl

theorem folderOf_append {before last : String} (h : '/' ∉ last.toList) :
    folderOf (before ++ "/" ++ last) = before := by
  have hname : (before ++ "/" ++ last).toList = before.toList ++ '/' :: last.toList := by simp
  rw [folderOf, hname, folderChars_append h, String.ofList_toList]

theorem folderOf_of_not_mem {name : String} (h : '/' ∉ name.toList) : folderOf name = "" := by
  rw [folderOf, folderChars_of_not_mem h, String.ofList_nil]

/-! ## The order of first occurrence -/

/-- What stays of a list without repetitions stands in the order of first occurrence. -/
theorem pairwise_distinctFrom {α : Type} [DecidableEq α] (seen xs : List α) :
    (distinctFrom id seen xs).Pairwise fun a b => xs.idxOf a < xs.idxOf b := by
  induction xs generalizing seen with
  | nil => exact .nil
  | cons x xs ih =>
    -- an element that differs from the first one is found one place further on
    have hshift {seen' : List α} (hx : x ∈ seen') :
        (distinctFrom id seen' xs).Pairwise fun a b => (x :: xs).idxOf a < (x :: xs).idxOf b := by
      apply (ih seen').imp_of_mem
      intro a b ha hb hab
      have hne {c : α} (hc : c ∈ distinctFrom id seen' xs) : x ≠ c := by
        rintro rfl
        exact (mem_of_mem_distinctFrom hc).2 hx
      rw [List.idxOf_cons_ne xs (hne ha), List.idxOf_cons_ne xs (hne hb)]
      exact Nat.succ_lt_succ hab
    by_cases hx : x ∈ seen
    · simpa only [distinctFrom, id, hx, if_true] using hshift hx
    · simp only [distinctFrom, id, hx, if_false, List.pairwise_cons]
      refine ⟨?_, hshift List.mem_cons_self⟩
      intro b hb
      have hne : x ≠ b := by
        rintro rfl
        exact (mem_of_mem_distinctFrom hb).2 List.mem_cons_self
      rw [List.idxOf_cons_self, List.idxOf_cons_ne xs hne]
      exact Nat.succ_pos _

namespace Graph

variable {g : Graph}

/-- The place of the first node that lies in a folder. -/
def firstSeen (g : Graph) (folder : String) : Nat := (g.nodes.map (·.folder)).idxOf folder

theorem pairwise_sharedFolders (g : Graph) :
    g.sharedFolders.Pairwise fun f f' => g.firstSeen f < g.firstSeen f' :=
  (pairwise_distinctFrom [] (g.nodes.map (·.folder))).filter _

/-! ## The members -/

theorem mem_members_iff {G : NodeGroup} (hG : G ∈ g.groups) {n : Node} :
    n ∈ G.members ↔ n ∈ g.nodes ∧ n.folder = G.folder := by
  obtain ⟨f, -, rfl⟩ := mem_groups.mp hG
  exact mem_inFolder

/-- The nodes of some folders, folder by folder. -/
theorem flatMap_inFolder_perm {folders : List String} (h : folders.Nodup) :
    (folders.flatMap g.inFolder).Perm (g.nodes.filter (·.folder ∈ folders)) := by
  induction folders with
  | nil => simp
  | cons f folders ih =>
    obtain ⟨hf, hfolders⟩ := List.nodup_cons.mp h
    rw [List.flatMap_cons]
    apply ((ih hfolders).append_left _).trans
    apply filter_append_filter_perm
    · intro n _
      rw [Bool.eq_iff_iff]
      simp
    · intro n _ hn
      have hn : n.folder ∈ folders := of_decide_eq_true hn
      have hne : n.folder ≠ f := by
        rintro rfl
        exact hf hn
      simpa using hne

theorem flatMap_members_groups (g : Graph) :
    g.groups.flatMap (·.members) = g.sharedFolders.flatMap g.inFolder := by
  rw [groups, List.flatMap_map]
  rfl

/-- The nodes that lie in no group, and then the members of each group, are all nodes. -/
theorem leftOver_append_members_perm (g : Graph) :
    (g.nodes.filter (·.folder ∉ g.groups.folders) ++ g.groups.flatMap (·.members)).Perm g.nodes := by
  have hmembers := g.flatMap_inFolder_perm g.nodup_sharedFolders
  rw [flatMap_members_groups, folders_groups]
  apply (hmembers.append_left _).trans
  apply List.perm_append_comm.trans
  simpa using List.filter_append_perm (fun n : Node => decide (n.folder ∈ g.sharedFolders)) g.nodes

/-- A group is the only one of its folder. -/
theorem eq_of_folder_eq {G G' : NodeGroup} (hG : G ∈ g.groups) (hG' : G' ∈ g.groups)
    (h : G.folder = G'.folder) : G = G' := by
  obtain ⟨f, -, rfl⟩ := mem_groups.mp hG
  obtain ⟨f', -, rfl⟩ := mem_groups.mp hG'
  have hf : f = f' := h
  rw [hf]

/-! ## The partition -/

/-- The nodes of the graph, sorted into groups, and the nodes that a view shows for them. -/
structure Partition (g : Graph) (Gs : Groups) (shown : List Node) : Prop where
  /-- the folder of a node is the text before the last `/` of its name -/
  folder_eq : ∀ n ∈ g.nodes, ∀ before last,
    n.name = before ++ "/" ++ last → '/' ∉ last.toList → n.folder = before
  folder_top : ∀ n ∈ g.nodes, '/' ∉ n.name.toList → n.folder = ""
  /-- the groups are the folders that at least two nodes lie in -/
  mem_folders : ∀ f, f ∈ Gs.folders ↔ 2 ≤ g.nodes.countP (·.folder == f)
  /-- in the order in which they are first seen, so each of them once -/
  ordered : Gs.folders.Pairwise fun f f' => g.firstSeen f < g.firstSeen f'
  /-- a group has all nodes of its folder, in order -/
  members : ∀ G ∈ Gs, G.members = g.nodes.filter (·.folder == G.folder)
  get? : ∀ f G, Gs.get? f = some G ↔ G ∈ Gs ∧ G.folder = f
  contains : ∀ f, Gs.contains f = true ↔ f ∈ Gs.folders
  /-- nodes that lie in no group are shown themselves, and then one node for each group -/
  shown_eq : shown = g.nodes.filter (·.folder ∉ Gs.folders) ++
    Gs.map fun G => Node.ofGroup G.folder (G.members.map (·.id))
  /-- as a list, the nodes that are shown themselves and the members are the nodes of the graph -/
  complete : (g.nodes.filter (·.folder ∉ Gs.folders) ++ Gs.flatMap (·.members)).Perm g.nodes
  /-- a node that is not shown itself is a member of one group -/
  exclusive : ∀ n ∈ g.nodes,
    (n.folder ∉ Gs.folders ∧ ∀ G ∈ Gs, n ∉ G.members) ∨
      (n.folder ∈ Gs.folders ∧ ∃! G, G ∈ Gs ∧ n ∈ G.members)

theorem mem_folders_groups_iff {f : String} :
    f ∈ g.groups.folders ↔ 2 ≤ g.nodes.countP (·.folder == f) := by
  rw [folders_groups, mem_sharedFolders, Shared, inFolder, List.countP_eq_length_filter]

theorem get?_groups_eq_some_iff {f : String} {G : NodeGroup} :
    g.groups.get? f = some G ↔ G ∈ g.groups ∧ G.folder = f := by
  constructor
  · intro h
    exact ⟨List.mem_of_find?_eq_some h, by simpa using List.find?_some h⟩
  · rintro ⟨hG, rfl⟩
    obtain ⟨f, hshared, rfl⟩ := mem_groups.mp hG
    rw [folder_group, get?_groups, if_pos hshared]

/-- The view is built from the graph without the annotations of its links, which has the same nodes. -/
theorem nodes_start (g : Graph) :
    (Grouping.start g).2.nodes = g.nodes.filter (·.folder ∉ g.groups.folders) ++
      g.groups.map fun G => Node.ofGroup G.folder (G.members.map (·.id)) := by
  have hleft : (g.nodes.filter fun n => !g.detached.groups.contains n.folder) =
      g.nodes.filter (·.folder ∉ g.groups.folders) := by
    apply List.filter_congr
    intro n _
    have hshared : g.detached.Shared n.folder ↔ n.folder ∈ g.sharedFolders := mem_sharedFolders.symm
    rw [contains_groups, folders_groups, decide_eq_decide.mpr hshared, ← decide_not]
  have hgroups : g.detached.groups.map NodeGroup.foldedNode =
      g.groups.map fun G => Node.ofGroup G.folder (G.members.map (·.id)) := by
    rw [groups, groups, List.map_map, List.map_map]
    rfl
  rw [Grouping.start_eq, folded, foldedNodes, hgroups, ← hleft]
  rfl

theorem exclusive_groups {n : Node} (hn : n ∈ g.nodes) :
    (n.folder ∉ g.groups.folders ∧ ∀ G ∈ g.groups, n ∉ G.members) ∨
      (n.folder ∈ g.groups.folders ∧ ∃! G, G ∈ g.groups ∧ n ∈ G.members) := by
  by_cases hfolder : n.folder ∈ g.groups.folders
  · right
    obtain ⟨G, hG, hGn⟩ := List.mem_map.mp hfolder
    refine ⟨hfolder, G, ⟨hG, (mem_members_iff hG).mpr ⟨hn, hGn.symm⟩⟩, ?_⟩
    rintro G' ⟨hG', hmem⟩
    have hfolder' := ((mem_members_iff hG').mp hmem).2
    exact eq_of_folder_eq hG' hG (hfolder'.symm.trans hGn.symm)
  · left
    refine ⟨hfolder, ?_⟩
    intro G hG hmem
    apply hfolder
    rw [((mem_members_iff hG).mp hmem).2]
    exact List.mem_map_of_mem hG

/-- The nodes of the grouped view are sorted by the groups of the graph. -/
theorem partition_start (g : Graph) : g.Partition g.groups (Grouping.start g).2.nodes where
  folder_eq := by
    intro n _ before last hname hlast
    rw [Node.folder, hname, folderOf_append hlast]
  folder_top := by
    intro n _ h
    exact folderOf_of_not_mem h
  mem_folders f := mem_folders_groups_iff
  ordered := by
    rw [folders_groups]
    exact g.pairwise_sharedFolders
  members := by
    intro G hG
    obtain ⟨f, -, rfl⟩ := mem_groups.mp hG
    rfl
  get? f G := get?_groups_eq_some_iff
  contains f := by simp [Groups.contains, Groups.folders]
  shown_eq := g.nodes_start
  complete := g.leftOver_append_members_perm
  exclusive n hn := exclusive_groups hn

end Graph

end ImportAtlas
