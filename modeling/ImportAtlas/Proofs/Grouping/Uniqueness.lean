-- SUMMARY: Exactly which graphs keep their ids unique through every history of folding and unfolding.
import ImportAtlas.Proofs.Grouping.Unfolding

/-! # Unique ids

The nodes of groups live among the ids of the graph, and a loaded node may pass for a group. So ids
that are unique in the loaded graph need not stay unique. They do for every history of folding and
unfolding exactly when two things hold of the loaded graph: nothing but a member of a group carries
the id of the group's node, and no node is marked as the folded group of a folder that forms one.

Where the two hold, the nodes of a view depend only on the set of unfolded folders, as they do for a
tidy graph. Where one fails, three requests at most make an id repeat. -/

namespace ImportAtlas

namespace Graph

variable {g view : Graph} {p : String}

/-- Every node that is marked as folded is marked for a folder that forms no group. -/
def Inert (g : Graph) : Prop :=
  ∀ n ∈ g.nodes, ∀ f, n.fold = some f → f.expanded = false → ¬ g.Shared f.folder

-- ---------------------------------------------------------------------------
-- How an id comes to repeat
-- ---------------------------------------------------------------------------

theorem exists_member_ne (hids : g.ids.Nodup) (hp : g.Shared p) (id : String) :
    ∃ m ∈ g.inFolder p, m.id ≠ id := by
  by_contra hall
  have hone : ∀ m ∈ g.inFolder p, m.id = id := by
    intro m hm
    by_contra hne
    exact hall ⟨m, hm, hne⟩
  have hmembers : ((g.inFolder p).map (·.id)).Nodup := hids.sublist (List.filter_sublist.map _)
  have hconst : (g.inFolder p).map (·.id) = List.replicate (g.inFolder p).length id :=
    List.map_eq_replicate_iff.mpr hone
  rw [hconst, List.nodup_replicate] at hmembers
  have : 2 ≤ (g.inFolder p).length := hp
  omega

/-- A node that stays when another gives way to the members of a group must not have the id of a
member. -/
theorem id_ne_of_nodup_unfold {id : String} {m n : Node}
    (hids : (g.unfold view id (g.group p)).ids.Nodup) (hm : m ∈ view.nodes) (hid : m.id ≠ id)
    (hn : n ∈ g.inFolder p) : m.id ≠ n.id := by
  have hkept : m ∈ view.nodes.eraseP (·.id == id) :=
    (List.mem_eraseP_of_neg (by simpa using hid)).mpr hm
  rw [ids, unfold, List.map_append, List.nodup_append'] at hids
  intro hmn
  exact hids.2.2 (List.mem_map_of_mem hkept) (hmn ▸ List.mem_map_of_mem hn)

theorem mem_nodes_unfold_of_ne {id : String} {m : Node} (hm : m ∈ view.nodes) (hid : m.id ≠ id) :
    m ∈ (g.unfold view id (g.group p)).nodes :=
  List.mem_append_left _ ((List.mem_eraseP_of_neg (by simpa using hid)).mpr hm)

theorem mem_nodes_unfold_of_member {id : String} {m : Node} (hm : m ∈ g.inFolder p) :
    m ∈ (g.unfold view id (g.group p)).nodes :=
  List.mem_append_right _ hm

end Graph

namespace Grouping

open ImportAtlas.Graph

variable {g view : Graph} {p : String} {rs : List Request}

-- ---------------------------------------------------------------------------
-- Unique ids from the two conditions
-- ---------------------------------------------------------------------------

/-- A toggle unfolds one more group, folds all groups, or does nothing: a node of the graph itself is
never unfolded. -/
theorem exists_nodes_toggled (hg : g.Named) (hinert : g.Inert) {E : Finset String}
    (h : view.nodes.Perm (g.openNodes E ++ g.closedGroups E)) (id : String) :
    ∃ E, (toggled g view id).nodes.Perm (g.openNodes E ++ g.closedGroups E) := by
  cases hnode : view.node? id with
  | none => exact ⟨E, by simpa [toggled, hnode] using h⟩
  | some n =>
    have hmem := mem_nodes_of_node? hnode
    rw [h.mem_iff, List.mem_append] at hmem
    rcases hmem with hmem | hmem
    · cases hfold : n.fold with
      | none => exact ⟨E, by simpa [toggled, hnode, hfold] using h⟩
      | some f =>
        cases hexp : f.expanded with
        | true => exact ⟨∅, by simpa [toggled, hnode, hfold, hexp] using g.pictures_folded.nodes⟩
        | false =>
          have hs := hinert n (mem_openNodes.mp hmem).1 f hfold hexp
          exact ⟨E, by simpa [toggled, hnode, hfold, hexp, hs] using h⟩
    · obtain ⟨f, ⟨hf, hE⟩, rfl⟩ := mem_closedGroups.mp hmem
      refine ⟨insert f E, ?_⟩
      rw [← node?_id hnode]
      change (toggled g view (Node.groupId f)).nodes.Perm _
      rw [toggled_groupId hg h hf hE]
      exact hg.nodes_unfold h hf hE

theorem exists_nodes_browse (hg : g.Named) (hinert : g.Inert) (hrs : .revert ∉ rs) :
    ∃ E, (browse g rs).2.nodes.Perm (g.openNodes E ++ g.closedGroups E) := by
  induction rs using List.reverseRecOn with
  | nil => exact ⟨∅, g.detached.pictures_folded.nodes⟩
  | append_singleton rs r ih =>
    rw [List.mem_append, not_or] at hrs
    obtain ⟨E, hview⟩ := ih hrs.1
    have h := loaded_browse g rs
    rw [browse_concat]
    cases r with
    | apply =>
      rw [answer, h.value_apply, if_pos (active_browse hrs.1)]
      exact ⟨E, hview⟩
    | toggle id =>
      rw [answer, h.value_toggle]
      exact exists_nodes_toggled (g := g.detached) ⟨hg.nodup, hg.own⟩ hinert hview id
    | collapse folder =>
      rw [answer, h.value_collapse]
      exact ⟨∅, g.detached.pictures_folded.nodes⟩
    | collapseAll =>
      rw [answer, h.value_collapseAll]
      exact ⟨∅, g.detached.pictures_folded.nodes⟩
    | revert => simp at hrs

-- ---------------------------------------------------------------------------
-- The two conditions from unique ids
-- ---------------------------------------------------------------------------

/-- No history of toggles makes an id repeat. -/
def KeepsIds (g : Graph) : Prop := ∀ rs, .revert ∉ rs → (browse g rs).2.ids.Nodup

theorem browse_toggle (g : Graph) (rs : List Request) (id : String) :
    (browse g (rs ++ [.toggle id])).2 = toggled g.detached (browse g rs).2 id := by
  rw [browse_concat, answer, (loaded_browse g rs).value_toggle]

/-- Under unique ids a toggle of a node that is marked as a folded group unfolds the group. -/
theorem KeepsIds.browse_unfold (hkeeps : KeepsIds g) (hrs : .revert ∉ rs) {n : Node} {id : String}
    (hn : n ∈ (browse g rs).2.nodes) (hid : n.id = id) {members : List String}
    (hfold : n.fold = some ⟨false, p, members⟩) (hp : g.Shared p) :
    (browse g (rs ++ [.toggle id])).2 =
      g.detached.unfold (browse g rs).2 id (g.detached.group p) := by
  rw [browse_toggle]
  exact toggled_of_mem (hkeeps rs hrs) hn hid hfold hp

/-- The folded node of a group of the graph. -/
abbrev groupNode (g : Graph) (p : String) : Node := Node.ofGroup p ((g.inFolder p).map (·.id))

theorem id_groupNode (g : Graph) (p : String) : (groupNode g p).id = Node.groupId p := rfl

theorem groupNode_mem_start (hp : g.Shared p) : groupNode g p ∈ (browse g []).2.nodes := by
  change _ ∈ g.detached.foldedNodes g.detached.groups
  rw [foldedNodes_groups]
  exact List.mem_append_right _ (mem_closedGroups.mpr ⟨p, ⟨hp, by simp⟩, rfl⟩)

theorem KeepsIds.unfold_start (hkeeps : KeepsIds g) (hp : g.Shared p) :
    (browse g [.toggle (Node.groupId p)]).2 =
      g.detached.unfold (browse g []).2 (Node.groupId p) (g.detached.group p) := by
  have hnil : .revert ∉ ([] : List Request) := by simp
  exact hkeeps.browse_unfold hnil (groupNode_mem_start hp) (id_groupNode g p) rfl hp

theorem KeepsIds.named (hkeeps : KeepsIds g) (hids : g.ids.Nodup) : g.Named where
  nodup := hids
  own := by
    intro n hn f hf hid
    by_contra hne
    by_cases hq : g.Shared n.folder
    · -- the node lies in another group, and meets the folded node of `f` when that is unfolded
      have hview := hkeeps [.toggle (Node.groupId n.folder)] (by simp)
      rw [hkeeps.unfold_start hq] at hview
      have hother : (groupNode g f).id ≠ Node.groupId n.folder := by
        intro h
        exact hne (Node.groupId_inj.mp h).symm
      have hmember : n ∈ g.detached.inFolder n.folder := mem_inFolder.mpr ⟨hn, rfl⟩
      exact id_ne_of_nodup_unfold hview (groupNode_mem_start hf) hother hmember hid.symm
    · -- the node is shown beside the folded node of `f` from the start
      have hview : (g.detached.foldedNodes g.detached.groups |>.map (·.id)).Nodup :=
        hkeeps [] (by simp)
      rw [foldedNodes_groups, List.map_append, List.nodup_append'] at hview
      have hopen : n ∈ g.detached.openNodes ∅ := mem_openNodes.mpr ⟨hn, open_empty.mpr hq⟩
      have hclosed : groupNode g f ∈ g.detached.closedGroups ∅ :=
        mem_closedGroups.mpr ⟨f, ⟨hf, by simp⟩, rfl⟩
      exact hview.2.2 (List.mem_map_of_mem hopen) (hid ▸ List.mem_map_of_mem hclosed)

/-- Every node comes into sight, with the other members of its folder, and while every other group is
still folded. -/
theorem KeepsIds.exists_browse_mem (hkeeps : KeepsIds g) {n : Node} (hn : n ∈ g.nodes) :
    ∃ rs, .revert ∉ rs ∧ n ∈ (browse g rs).2.nodes ∧
      (g.Shared n.folder → ∀ m ∈ g.inFolder n.folder, m ∈ (browse g rs).2.nodes) ∧
      ∀ p, g.Shared p → n.folder ≠ p → groupNode g p ∈ (browse g rs).2.nodes := by
  by_cases hq : g.Shared n.folder
  · refine ⟨[.toggle (Node.groupId n.folder)], by simp, ?_⟩
    rw [hkeeps.unfold_start hq]
    refine ⟨?_, ?_, ?_⟩
    · exact mem_nodes_unfold_of_member (mem_inFolder.mpr ⟨hn, rfl⟩)
    · intro _ m hm
      exact mem_nodes_unfold_of_member hm
    · intro p hp hne
      refine mem_nodes_unfold_of_ne (groupNode_mem_start hp) ?_
      intro h
      exact hne (Node.groupId_inj.mp h).symm
  · refine ⟨[], by simp, ?_, fun h => absurd h hq, fun p hp _ => groupNode_mem_start hp⟩
    change n ∈ g.detached.foldedNodes g.detached.groups
    rw [foldedNodes_groups]
    exact List.mem_append_left _ (mem_openNodes.mpr ⟨hn, open_empty.mpr hq⟩)

theorem KeepsIds.inert (hkeeps : KeepsIds g) (hids : g.ids.Nodup) : g.Inert := by
  rintro n hn ⟨expanded, p, members⟩ hfold rfl hp
  obtain ⟨rs, hrs, hmem, hmembers, hgroups⟩ := hkeeps.exists_browse_mem hn
  have hrs' : .revert ∉ rs ++ [.toggle n.id] := by simp [hrs]
  have hunfold := hkeeps.browse_unfold hrs hmem rfl hfold hp
  have hview := hkeeps _ hrs'
  rw [hunfold] at hview
  by_cases hq : n.folder = p
  · -- its own members come a second time
    obtain ⟨m, hm, hne⟩ := exists_member_ne hids hp n.id
    have hshown := hmembers (hq ▸ hp) m (hq ▸ hm)
    exact id_ne_of_nodup_unfold hview hshown hne hm rfl
  · -- the members come once for the node and once more for the group, which is still folded
    have hnid : (groupNode g p).id ≠ n.id := by
      intro h
      exact hq ((hkeeps.named hids).own n hn p hp h.symm)
    have hfolded : groupNode g p ∈ (browse g (rs ++ [.toggle n.id])).2.nodes := by
      rw [hunfold]
      exact mem_nodes_unfold_of_ne (hgroups p hp hq) hnid
    have hview' := hkeeps (rs ++ [.toggle n.id] ++ [.toggle (Node.groupId p)]) (by simp [hrs])
    rw [hkeeps.browse_unfold hrs' hfolded (id_groupNode g p) rfl hp] at hview'
    obtain ⟨m, hm, hne⟩ := exists_member_ne hids hp (Node.groupId p)
    have hshown : m ∈ (browse g (rs ++ [.toggle n.id])).2.nodes := by
      rw [hunfold]
      exact mem_nodes_unfold_of_member hm
    exact id_ne_of_nodup_unfold hview' hshown hne hm rfl

/-- Ids that are unique in a graph stay unique through every history of folding and unfolding, so that
at most one node of a view stands for a folder, exactly when nothing but a member of a group carries
the id of the group's node and no node of the graph passes for a folded group. -/
theorem nodup_browse_iff (g : Graph) (hids : g.ids.Nodup) :
    (∀ rs, .revert ∉ rs → (browse g rs).2.ids.Nodup) ↔
      (∀ n ∈ g.nodes, ∀ p, g.Shared p → n.id = Node.groupId p → n.folder = p) ∧
      (∀ n ∈ g.nodes, ∀ f, n.fold = some f → f.expanded = false → ¬ g.Shared f.folder) := by
  constructor
  · intro hkeeps
    exact ⟨(KeepsIds.named hkeeps hids).own, KeepsIds.inert hkeeps hids⟩
  · rintro ⟨hown, hinert⟩ rs hrs
    have hg : g.Named := ⟨hids, hown⟩
    obtain ⟨E, hnodes⟩ := exists_nodes_browse hg hinert hrs
    exact (hnodes.map _).nodup_iff.mpr (hg.nodup_picture E)

/-- A member that carries the id of its group, and a node marked as the unfolded group of a folder:
both keep their ids apart from all others. -/
theorem nodup_browse_iff_namesake :
    let g : Graph :=
      { nodes := [⟨"group_a", "a/x", .project, none⟩, ⟨"y", "a/y", .project, none⟩,
          ⟨"p", "z/p", .group, some ⟨true, "a", []⟩⟩, ⟨"q", "z/q", .group, some ⟨false, "z/q", []⟩⟩] }
    g.ids.Nodup ∧
      ((∀ rs, .revert ∉ rs → (browse g rs).2.ids.Nodup) ↔
        (∀ n ∈ g.nodes, ∀ p, g.Shared p → n.id = Node.groupId p → n.folder = p) ∧
        (∀ n ∈ g.nodes, ∀ f, n.fold = some f → f.expanded = false → ¬ g.Shared f.folder)) := by
  intro g
  have hids : g.ids.Nodup := by decide
  exact ⟨hids, nodup_browse_iff g hids⟩

/-- Folding a graph twice, with the folded graph loaded in between. The second folding finds the groups
`b/c` and `b/d` in a folder `b`, whose node has the id of the group `b` that is there already. -/
theorem not_nodup_start_folded :
    let plain (name : String) : Node := ⟨name, name, .project, none⟩
    let g : Graph := (start { nodes := ["b/x", "b/y", "b/c/1", "b/c/2", "b/d/1", "b/d/2"].map plain }).2
    g.ids.Nodup ∧ g.ids = ["group_b", "group_b/c", "group_b/d"] ∧
      (start g).2.ids = ["group_b", "group_b"] ∧ ¬ (start g).2.ids.Nodup := by
  decide +kernel

end Grouping

end ImportAtlas
