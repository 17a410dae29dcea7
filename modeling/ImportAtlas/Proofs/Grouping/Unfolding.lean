-- SUMMARY: The exact view after any history of unfolding and folding, as a function of the folders that are unfolded.
import ImportAtlas.Proofs.Grouping.Quotient
import Mathlib.Data.Finset.Dedup
import Mathlib.Data.Finset.Filter
import Mathlib.Data.List.DropRight

/-! # The view of a set of unfolded folders

Unfolding works on the view at hand: it drops the links at the group node and adds links of the loaded
graph by what happens to be present. Here it is shown that nothing depends on the way that the view
came about. With `E` the folders unfolded since the last folding, the view consists of exactly the
nodes and links that `openNodes`, `closedGroups`, `shownLinks` and `bridges` list for `E`, each as often
as it is listed there; so a link between two groups comes back once, when the later one is unfolded. -/

namespace ImportAtlas

namespace Graph

/-- No id repeats, and nothing but its own members may carry the id that a group will need. -/
structure Named (g : Graph) : Prop where
  nodup : g.ids.Nodup
  own : ∀ n ∈ g.nodes, ∀ f, g.Shared f → n.id = Node.groupId f → n.folder = f

/-- No id repeats, no node is a group already, and no id is taken that a group will need. -/
structure Tidy (g : Graph) : Prop where
  nodup : g.ids.Nodup
  plain : ∀ n ∈ g.nodes, n.fold = none
  free : ∀ f, g.Shared f → Node.groupId f ∉ g.ids

/-- The view shows the graph `g` with the groups of the folders `E` unfolded. -/
structure Pictures (g : Graph) (E : Finset String) (view : Graph) : Prop where
  nodes : view.nodes.Perm (g.openNodes E ++ g.closedGroups E)
  links : view.links.Perm (g.shownLinks E ++ g.bridges E)

variable {g view : Graph} {E : Finset String} {p : String}

theorem Tidy.detached (hg : g.Tidy) : g.detached.Tidy := ⟨hg.nodup, hg.plain, hg.free⟩

theorem Tidy.named (hg : g.Tidy) : g.Named where
  nodup := hg.nodup
  own := by
    intro n hn f hf hid
    exact absurd (hid ▸ List.mem_map_of_mem hn) (hg.free f hf)

theorem pictures_detached_iff : g.detached.Pictures E view ↔ g.Pictures E view := by
  constructor
  · intro h
    refine ⟨h.nodes, ?_⟩
    rw [← shownLinks_detached, ← bridges_detached]
    exact h.links
  · intro h
    refine ⟨h.nodes, ?_⟩
    rw [shownLinks_detached, bridges_detached]
    exact h.links

theorem pictures_folded (g : Graph) : g.Pictures ∅ (g.folded g.groups) := by
  obtain ⟨crossed, hlinks, hcrossed⟩ := g.links_folded
  constructor
  · rw [← foldedNodes_groups]
    exact .refl _
  · rw [hlinks]
    exact hcrossed.append_left _

/-! ## Ids of a view -/

theorem mem_closedGroups {n : Node} : n ∈ g.closedGroups E ↔
    ∃ f, (g.Shared f ∧ f ∉ E) ∧ Node.ofGroup f ((g.inFolder f).map (·.id)) = n := by
  simp [closedGroups]

theorem mem_openNodes {n : Node} : n ∈ g.openNodes E ↔ n ∈ g.nodes ∧ g.Open E n.folder := by
  simp [openNodes]

theorem ids_closedGroups (g : Graph) (E : Finset String) :
    (g.closedGroups E).map (·.id) = (g.sharedFolders.filter (· ∉ E)).map Node.groupId := by
  rw [closedGroups, List.map_map]
  rfl

theorem Tidy.id_ne_groupId (hg : g.Tidy) {n : Node} (hn : n ∈ g.nodes) (hp : g.Shared p) :
    n.id ≠ Node.groupId p := by
  intro h
  exact hg.free p hp (h ▸ List.mem_map_of_mem hn)

theorem not_open (hp : g.Shared p) (hE : p ∉ E) : ¬ g.Open E p := by
  simp [Open, hp, hE]

/-- A member that carries the id of its group is not shown while the group is folded. -/
theorem Named.id_ne_groupId (hg : g.Named) {n : Node} (hn : n ∈ g.openNodes E) (hp : g.Shared p)
    (hE : p ∉ E) : n.id ≠ Node.groupId p := by
  intro hid
  rw [mem_openNodes] at hn
  have hfolder := hg.own n hn.1 p hp hid
  exact not_open hp hE (hfolder ▸ hn.2)

theorem Named.nodup_picture (hg : g.Named) (E : Finset String) :
    ((g.openNodes E ++ g.closedGroups E).map (·.id)).Nodup := by
  rw [List.map_append, List.nodup_append', ids_closedGroups]
  refine ⟨?_, ?_, ?_⟩
  · exact hg.nodup.sublist (List.filter_sublist.map _)
  · exact (g.nodup_sharedFolders.filter _).map fun _ _ h => Node.groupId_inj.mp h
  · intro id hopen hclosed
    obtain ⟨n, hn, rfl⟩ := List.mem_map.mp hopen
    obtain ⟨f, hf, hid⟩ := List.mem_map.mp hclosed
    rw [List.mem_filter, mem_sharedFolders, decide_eq_true_eq] at hf
    exact hg.id_ne_groupId hn hf.1 hf.2 hid.symm

/-- An id of the graph is present in the view exactly when its own node is shown. -/
theorem Tidy.mem_ids_picture (hg : g.Tidy) {id : String} {n : Node} (hn : g.node? id = some n) :
    id ∈ (g.openNodes E ++ g.closedGroups E).map (·.id) ↔ g.Open E n.folder := by
  have hmem := mem_nodes_of_node? hn
  have hid := node?_id hn
  constructor
  · intro h
    obtain ⟨m, hm, hmid⟩ := List.mem_map.mp h
    rcases List.mem_append.mp hm with hm | hm
    · rw [mem_openNodes] at hm
      have hmn : m = n := List.inj_on_of_nodup_map hg.nodup hm.1 hmem (hmid.trans hid.symm)
      exact hmn ▸ hm.2
    · obtain ⟨f, ⟨hf, -⟩, rfl⟩ := mem_closedGroups.mp hm
      exact absurd (hid.trans hmid.symm) (hg.id_ne_groupId hmem hf)
  · intro h
    exact List.mem_map.mpr ⟨n, List.mem_append_left _ (mem_openNodes.mpr ⟨hmem, h⟩), hid⟩

/-! ## Unfolding one more group -/

theorem open_insert {f : String} : g.Open (insert p E) f ↔ g.Open E f ∨ f = p := by
  simp only [Open, Finset.mem_insert]
  tauto

theorem showsEnds_insert {l : Link} (h : g.showsEnds E l = true) :
    g.showsEnds (insert p E) l = true := by
  obtain ⟨s, t, hs, ht, hsource, htarget⟩ := showsEnds_iff.mp h
  exact showsEnds_iff.mpr ⟨s, t, hs, ht, open_insert.mpr (.inl hsource), open_insert.mpr (.inl htarget)⟩

private theorem eraseP_eq_filter {l : List Node} {id : String} (h : (l.map (·.id)).Nodup) :
    l.eraseP (·.id == id) = l.filter (·.id != id) := by
  induction l with
  | nil => rfl
  | cons n ns ih =>
    rw [List.map_cons, List.nodup_cons] at h
    by_cases hn : n.id = id
    · -- the first match is the only one, so the rest is kept whole
      have hrest : ns.filter (·.id != id) = ns := by
        rw [List.filter_eq_self]
        intro m hm
        simp only [bne_iff_ne, ne_eq]
        intro hmid
        exact h.1 (hn.trans hmid.symm ▸ List.mem_map_of_mem hm)
      simp [hn, hrest]
    · simp [hn, ih h.2]

theorem openNodes_insert_perm (hp : g.Shared p) (hE : p ∉ E) :
    (g.openNodes E ++ g.inFolder p).Perm (g.openNodes (insert p E)) := by
  apply filter_append_filter_perm
  · intro n _
    rw [Bool.eq_iff_iff]
    simp [open_insert]
  · intro n _ hn
    have hfolder : n.folder = p := by simpa using hn
    simp [hfolder, not_open hp hE]

theorem Named.openNodes_filter (hg : g.Named) (hp : g.Shared p) (hE : p ∉ E) :
    (g.openNodes E).filter (·.id != Node.groupId p) = g.openNodes E := by
  rw [List.filter_eq_self]
  intro n hn
  simpa using hg.id_ne_groupId hn hp hE

theorem closedGroups_filter (g : Graph) (E : Finset String) (p : String) :
    (g.closedGroups E).filter (·.id != Node.groupId p) = g.closedGroups (insert p E) := by
  rw [closedGroups, List.filter_map, List.filter_filter]
  congr 1
  apply List.filter_congr
  intro f _
  rw [Bool.eq_iff_iff]
  simp [Node.ofGroup, Node.groupId_inj]

/-- The group node gives way to the members. -/
theorem Named.nodes_unfold (hg : g.Named)
    (h : view.nodes.Perm (g.openNodes E ++ g.closedGroups E)) (hp : g.Shared p) (hE : p ∉ E) :
    (g.unfold view (Node.groupId p) (g.group p)).nodes.Perm
      (g.openNodes (insert p E) ++ g.closedGroups (insert p E)) := by
  have hnodup : (view.nodes.map (·.id)).Nodup :=
    (h.map _).nodup_iff.mpr (hg.nodup_picture E)
  have herase : (view.nodes.eraseP (·.id == Node.groupId p)).Perm
      (g.openNodes E ++ g.closedGroups (insert p E)) := by
    rw [eraseP_eq_filter hnodup]
    have hfilter := h.filter (·.id != Node.groupId p)
    rwa [List.filter_append, hg.openNodes_filter hp hE, closedGroups_filter] at hfilter
  calc view.nodes.eraseP (·.id == Node.groupId p) ++ g.inFolder p
    List.Perm _ ((g.openNodes E ++ g.closedGroups (insert p E)) ++ g.inFolder p) :=
      herase.append_right _
    List.Perm _ ((g.openNodes E ++ g.inFolder p) ++ g.closedGroups (insert p E)) := by
      rw [List.append_assoc, List.append_assoc]
      exact List.perm_append_comm.append_left _
    List.Perm _ (g.openNodes (insert p E) ++ g.closedGroups (insert p E)) :=
      (openNodes_insert_perm hp hE).append_right _

theorem Tidy.shownLinks_filter (hg : g.Tidy) (hp : g.Shared p) :
    (g.shownLinks E).filter (fun l => !l.touches (Node.groupId p)) = g.shownLinks E := by
  rw [List.filter_eq_self]
  intro l hl
  simp only [shownLinks, List.mem_map, List.mem_filter, showsEnds_iff] at hl
  obtain ⟨k, ⟨-, s, t, hs, ht, -⟩, rfl⟩ := hl
  have hsource := hg.id_ne_groupId (mem_nodes_of_node? hs) hp
  have htarget := hg.id_ne_groupId (mem_nodes_of_node? ht) hp
  rw [node?_id hs] at hsource
  rw [node?_id ht] at htarget
  simp [Link.touches, Link.detached, Link.between, hsource, htarget]

theorem Tidy.representative_eq_groupId_iff (hg : g.Tidy) {id : String} {n : Node}
    (hn : g.node? id = some n) (hp : g.Shared p) :
    g.representative id = Node.groupId p ↔ n.folder = p := by
  rw [representative_of_node? hn]
  by_cases hs : g.Shared n.folder
  · rw [if_pos hs, Node.groupId_inj]
  · rw [if_neg hs, ← node?_id hn]
    constructor
    · intro h
      exact absurd h (hg.id_ne_groupId (mem_nodes_of_node? hn) hp)
    · rintro rfl
      exact absurd hp hs

/-- The bridges at a group are those of the edges with an end in it. -/
theorem Tidy.bridges_filter (hg : g.Tidy) (hp : g.Shared p) :
    (g.bridges E).filter (fun l => !l.touches (Node.groupId p)) = g.bridges (insert p E) := by
  rw [bridges, List.filter_map, List.filter_filter]
  congr 1
  apply List.filter_congr
  intro e _
  rw [Bool.eq_iff_iff]
  simp only [Function.comp_apply, Bool.and_eq_true, Bool.not_eq_true', Link.touches,
    Bool.or_eq_false_iff, beq_eq_false_iff_ne, bridge, crosses_iff, Finset.mem_insert, not_or]
  constructor
  · rintro ⟨⟨hsource, htarget⟩, s, t, hs, ht, hne, hshared, hsE, htE⟩
    rw [ne_eq, hg.representative_eq_groupId_iff hs hp] at hsource
    rw [ne_eq, hg.representative_eq_groupId_iff ht hp] at htarget
    exact ⟨s, t, hs, ht, hne, hshared, ⟨hsource, hsE⟩, htarget, htE⟩
  · rintro ⟨s, t, hs, ht, hne, hshared, ⟨hsp, hsE⟩, htp, htE⟩
    rw [ne_eq, ne_eq, hg.representative_eq_groupId_iff hs hp, hg.representative_eq_groupId_iff ht hp]
    exact ⟨⟨hsp, htp⟩, s, t, hs, ht, hne, hshared, hsE, htE⟩

/-- The links that come back are those that are shown now and were not before: unfolding `p` brings
into sight what has an end in it. -/
theorem unfoldedLinks_group {present : List String} (hp : g.Shared p) (hE : p ∉ E)
    (hpresent : ∀ id n, g.node? id = some n → (id ∈ present ↔ g.Open (insert p E) n.folder)) :
    g.unfoldedLinks (g.group p) present =
      (g.links.filter fun l => g.showsEnds (insert p E) l && !g.showsEnds E l).map
        Link.detached := by
  rw [unfoldedLinks_eq]
  apply filterMap_spans
  · intro l h
    rw [showsEnds_of_resolve?_eq_none h, Bool.false_and]
  · intro l s t hs ht
    have hclosed := not_open hp hE
    rw [Bool.and_eq_true, Bool.not_eq_true', Bool.eq_false_iff, ne_eq, showsEnds_of_node? hs ht,
      showsEnds_of_node? hs ht]
    simp only [folder_group, Span.sourceFolder_of, Span.targetFolder_of, Span.link_of,
      hpresent _ _ hs, hpresent _ _ ht, open_insert]
    by_cases hsp : s.folder = p <;> by_cases htp : t.folder = p <;> simp_all

theorem shownLinks_insert_perm {present : List String} (hp : g.Shared p) (hE : p ∉ E)
    (hpresent : ∀ id n, g.node? id = some n → (id ∈ present ↔ g.Open (insert p E) n.folder)) :
    (g.shownLinks E ++ g.unfoldedLinks (g.group p) present).Perm (g.shownLinks (insert p E)) := by
  rw [unfoldedLinks_group hp hE hpresent, shownLinks, shownLinks, ← List.map_append]
  apply List.Perm.map
  apply filter_append_filter_perm
  · intro l _
    cases hshown : g.showsEnds E l with
    | false => simp
    | true => simp [showsEnds_insert hshown]
  · intro l _ hl
    rw [Bool.and_eq_true, Bool.not_eq_true'] at hl
    exact hl.2

theorem Tidy.links_unfold (hg : g.Tidy) (h : g.Pictures E view) (hp : g.Shared p) (hE : p ∉ E) :
    (g.unfold view (Node.groupId p) (g.group p)).links.Perm
      (g.shownLinks (insert p E) ++ g.bridges (insert p E)) := by
  let present := (g.unfold view (Node.groupId p) (g.group p)).ids
  have hpresent : ∀ id n, g.node? id = some n →
      (id ∈ present ↔ g.Open (insert p E) n.folder) := by
    intro id n hn
    rw [← hg.mem_ids_picture hn]
    exact ((hg.named.nodes_unfold h.nodes hp hE).map _).mem_iff
  have hkept : (view.links.filter fun l => !l.touches (Node.groupId p)).Perm
      (g.shownLinks E ++ g.bridges (insert p E)) := by
    have hfilter := h.links.filter fun l => !l.touches (Node.groupId p)
    rwa [List.filter_append, hg.shownLinks_filter hp, hg.bridges_filter hp] at hfilter
  calc (view.links.filter fun l => !l.touches (Node.groupId p)) ++
        g.unfoldedLinks (g.group p) present
    List.Perm _ ((g.shownLinks E ++ g.bridges (insert p E)) ++
        g.unfoldedLinks (g.group p) present) :=
      hkept.append_right _
    List.Perm _ ((g.shownLinks E ++ g.unfoldedLinks (g.group p) present) ++
        g.bridges (insert p E)) := by
      rw [List.append_assoc, List.append_assoc]
      exact List.perm_append_comm.append_left _
    List.Perm _ (g.shownLinks (insert p E) ++ g.bridges (insert p E)) :=
      (shownLinks_insert_perm hp hE hpresent).append_right _

theorem Tidy.pictures_unfold (hg : g.Tidy) (h : g.Pictures E view) (hp : g.Shared p) (hE : p ∉ E) :
    g.Pictures (insert p E) (g.unfold view (Node.groupId p) (g.group p)) :=
  ⟨hg.named.nodes_unfold h.nodes hp hE, hg.links_unfold h hp hE⟩

end Graph

/-! ## Histories -/

/-- The request folds every group. -/
def Request.folds : Request → Bool
  | .collapse _ | .collapseAll => true
  | .apply | .toggle _ | .revert => false

namespace Grouping

open ImportAtlas.Graph

/-- The folders that form groups and whose group nodes were toggled since the groups were last
folded. -/
def unfoldedBy (g : Graph) (rs : List Request) : Finset String :=
  g.sharedFolders.toFinset.filter fun f => .toggle (Node.groupId f) ∈ rs.rtakeWhile (!·.folds)

variable {g view : Graph} {E : Finset String} {p id : String} {rs : List Request}

theorem mem_unfoldedBy {f : String} : f ∈ unfoldedBy g rs ↔
    g.Shared f ∧ .toggle (Node.groupId f) ∈ rs.rtakeWhile (!·.folds) := by
  simp [unfoldedBy]

theorem unfoldedBy_nil : unfoldedBy g [] = ∅ := by
  ext f
  simp [mem_unfoldedBy]

theorem unfoldedBy_folds {r : Request} (hr : r.folds = true) : unfoldedBy g (rs ++ [r]) = ∅ := by
  ext f
  rw [mem_unfoldedBy, List.rtakeWhile_concat_neg _ _ _ (by simp [hr])]
  simp

theorem unfoldedBy_apply : unfoldedBy g (rs ++ [.apply]) = unfoldedBy g rs := by
  ext f
  rw [mem_unfoldedBy, mem_unfoldedBy, List.rtakeWhile_concat_pos _ _ _ rfl]
  simp

theorem mem_unfoldedBy_toggle {f : String} : f ∈ unfoldedBy g (rs ++ [.toggle id]) ↔
    f ∈ unfoldedBy g rs ∨ (g.Shared f ∧ Node.groupId f = id) := by
  rw [mem_unfoldedBy, mem_unfoldedBy, List.rtakeWhile_concat_pos _ _ _ rfl, List.mem_append,
    List.mem_singleton, Request.toggle.injEq]
  tauto

/-- Toggling a node that is marked as a folded group unfolds the group, wherever the node is from. -/
theorem toggled_of_mem {n : Node} (hids : view.ids.Nodup) (hn : n ∈ view.nodes) (hid : n.id = id)
    {members : List String} (hfold : n.fold = some ⟨false, p, members⟩) (hp : g.Shared p) :
    toggled g view id = g.unfold view id (g.group p) := by
  have hnode := node?_of_mem hids hn
  rw [hid] at hnode
  simp [toggled, hnode, hfold, hp]

theorem toggled_groupId (hg : g.Named) (h : view.nodes.Perm (g.openNodes E ++ g.closedGroups E))
    (hp : g.Shared p) (hE : p ∉ E) :
    toggled g view (Node.groupId p) = g.unfold view (Node.groupId p) (g.group p) := by
  have hids : view.ids.Nodup := (h.map _).nodup_iff.mpr (hg.nodup_picture E)
  have hmem : Node.ofGroup p ((g.inFolder p).map (·.id)) ∈ view.nodes := by
    rw [h.mem_iff]
    exact List.mem_append_right _ (mem_closedGroups.mpr ⟨p, ⟨hp, hE⟩, rfl⟩)
  exact toggled_of_mem hids hmem rfl rfl hp

/-- Toggling anything else changes nothing. -/
theorem toggled_other (hg : g.Tidy) (h : g.Pictures E view)
    (hid : ∀ p, g.Shared p → p ∉ E → Node.groupId p ≠ id) : toggled g view id = view := by
  cases hnode : view.node? id with
  | none => simp [toggled, hnode]
  | some n =>
    have hmem := mem_nodes_of_node? hnode
    rw [h.nodes.mem_iff, List.mem_append] at hmem
    rcases hmem with hmem | hmem
    · have hplain := hg.plain n (mem_openNodes.mp hmem).1
      simp [toggled, hnode, hplain]
    · obtain ⟨f, ⟨hf, hfE⟩, rfl⟩ := mem_closedGroups.mp hmem
      exact absurd (node?_id hnode) (hid f hf hfE)

theorem active_browse (hrs : .revert ∉ rs) : (browse g rs).1.active = true := by
  induction rs using List.reverseRecOn with
  | nil => rfl
  | append_singleton rs r ih =>
    rw [List.mem_append, not_or] at hrs
    have hactive := ih hrs.1
    have h := loaded_browse g rs
    rw [browse_concat]
    cases r with
    | apply => simp [answer, h.value_apply, hactive]
    | toggle id => simp [answer, h.value_toggle, hactive]
    | collapse folder => simp [answer, h.value_collapse, hactive]
    | collapseAll => simp [answer, h.value_collapseAll, hactive]
    | revert => simp at hrs

theorem pictures_toggled (hg : g.Tidy) (h : g.Pictures (unfoldedBy g rs) view) (id : String) :
    g.Pictures (unfoldedBy g (rs ++ [.toggle id])) (toggled g view id) := by
  by_cases hid : ∃ p, g.Shared p ∧ p ∉ unfoldedBy g rs ∧ Node.groupId p = id
  · obtain ⟨p, hp, hE, rfl⟩ := hid
    have hunfolded : unfoldedBy g (rs ++ [.toggle (Node.groupId p)]) =
        insert p (unfoldedBy g rs) := by
      ext f
      rw [mem_unfoldedBy_toggle, Node.groupId_inj, Finset.mem_insert]
      constructor
      · rintro (hf | ⟨-, rfl⟩)
        · exact .inr hf
        · exact .inl rfl
      · rintro (rfl | hf)
        · exact .inr ⟨hp, rfl⟩
        · exact .inl hf
    rw [hunfolded, toggled_groupId hg.named h.nodes hp hE]
    exact hg.pictures_unfold h hp hE
  · have hunfolded : unfoldedBy g (rs ++ [.toggle id]) = unfoldedBy g rs := by
      ext f
      rw [mem_unfoldedBy_toggle, or_iff_left_iff_imp]
      rintro ⟨hf, hfid⟩
      by_contra hE
      exact hid ⟨f, hf, hE, hfid⟩
    have hother : ∀ p, g.Shared p → p ∉ unfoldedBy g rs → Node.groupId p ≠ id :=
      fun p hp hE hpid => hid ⟨p, hp, hE, hpid⟩
    rw [hunfolded, toggled_other hg h hother]
    exact h

/-- After any history of unfolding and folding, the view is the picture of the graph with exactly
those folders unfolded whose groups were toggled since the last folding. -/
theorem pictures_browse (g : Graph) (rs : List Request) (hg : g.Tidy) (hrs : .revert ∉ rs) :
    g.Pictures (unfoldedBy g rs) (browse g rs).2 := by
  rw [← pictures_detached_iff]
  induction rs using List.reverseRecOn with
  | nil =>
    rw [unfoldedBy_nil]
    exact pictures_folded g.detached
  | append_singleton rs r ih =>
    rw [List.mem_append, not_or] at hrs
    have hview := ih hrs.1
    have h := loaded_browse g rs
    rw [browse_concat]
    cases r with
    | apply =>
      rw [unfoldedBy_apply, answer, h.value_apply, if_pos (active_browse hrs.1)]
      exact hview
    | toggle id =>
      rw [answer, h.value_toggle]
      exact pictures_toggled hg.detached hview id
    | collapse folder =>
      rw [unfoldedBy_folds rfl, answer, h.value_collapse]
      exact pictures_folded g.detached
    | collapseAll =>
      rw [unfoldedBy_folds rfl, answer, h.value_collapseAll]
      exact pictures_folded g.detached
    | revert => simp at hrs

theorem pictures_browse_neighbours :
    let g : Graph :=
      { nodes := [⟨"1", "a/x", .project, none⟩, ⟨"2", "b/x", .project, none⟩,
          ⟨"3", "a/y", .project, none⟩, ⟨"4", "b/y", .project, none⟩, ⟨"5", "c", .root, none⟩]
        links := [.between "1" "2", .between "1" "2", .between "4" "3", .between "5" "2",
          .between "1" "3", .between "5" "6"] }
    let rs : List Request := [.toggle "group_a", .collapse "b", .toggle "group_b", .toggle "5",
      .toggle "group_a", .toggle "group_b"]
    (g.Tidy ∧ .revert ∉ rs) ∧ g.Pictures (unfoldedBy g rs) (browse g rs).2 := by
  intro g rs
  have hg : g.Tidy :=
    ⟨by decide, by decide, fun f hf => (by decide +kernel :
      ∀ f ∈ g.sharedFolders, Node.groupId f ∉ g.ids) f (mem_sharedFolders.mpr hf)⟩
  have hrs : .revert ∉ rs := by decide
  exact ⟨⟨hg, hrs⟩, pictures_browse g rs hg hrs⟩

end Grouping

end ImportAtlas
