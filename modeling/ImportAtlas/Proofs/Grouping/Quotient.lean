-- SUMMARY: What a partly unfolded view of a graph has to show, and the folded view as the exact quotient of the graph by its groups.
import ImportAtlas.Proofs.Grouping.History
import Mathlib.Data.Finset.Basic
import Mathlib.Data.List.Dedup

/-! # The quotient of a graph by its groups

The first half says what a view of a graph shows when the groups of some folders are unfolded and all
others are folded. It speaks of ids and folders only: groups, crossings and the nodes that happen to
be present play no part in it. The second half shows that folding builds this view for no unfolded
folder at all: every link across a border is there once, in its direction, and none is dropped. -/

namespace ImportAtlas

namespace Graph

/-! ## What a view shows -/

/-- The nodes of the folder are shown one by one: it is no group, or its group is unfolded. -/
def Open (g : Graph) (E : Finset String) (folder : String) : Prop := ¬ g.Shared folder ∨ folder ∈ E

instance (g : Graph) (E : Finset String) (folder : String) : Decidable (g.Open E folder) :=
  inferInstanceAs (Decidable (_ ∨ _))

/-- Whether an id finds a node, and one that is shown itself. -/
def shows (g : Graph) (E : Finset String) (id : String) : Bool :=
  (g.node? id).any fun n => g.Open E n.folder

def showsEnds (g : Graph) (E : Finset String) (l : Link) : Bool :=
  g.shows E l.source && g.shows E l.target

/-- The id that stands for an id while all groups are folded: that of its group, or its own. -/
def representative (g : Graph) (id : String) : String :=
  match g.node? id with
  | some n => if g.Shared n.folder then Node.groupId n.folder else id
  | none => id

/-- Whether an edge leads from one folder to another, one of them a group and none of them in `E`. -/
def crosses (g : Graph) (E : Finset String) (e : String × String) : Bool :=
  match g.node? e.1, g.node? e.2 with
  | some s, some t =>
    s.folder ≠ t.folder ∧ (g.Shared s.folder ∨ g.Shared t.folder) ∧ s.folder ∉ E ∧ t.folder ∉ E
  | _, _ => false

/-- The link that stands for an edge across a border. -/
def bridge (g : Graph) (e : String × String) : Link where
  source := g.representative e.1
  target := g.representative e.2
  grouped := true
  standsFor := [{ source := e.1, target := e.2 }]

/-- The nodes that are shown themselves. -/
def openNodes (g : Graph) (E : Finset String) : List Node := g.nodes.filter fun n => g.Open E n.folder

/-- One folded node for every group outside `E`. -/
def closedGroups (g : Graph) (E : Finset String) : List Node :=
  (g.sharedFolders.filter (· ∉ E)).map fun f => Node.ofGroup f ((g.inFolder f).map (·.id))

/-- The links between nodes that are shown themselves, as often as the graph has them. -/
def shownLinks (g : Graph) (E : Finset String) : List Link :=
  (g.links.filter (g.showsEnds E)).map Link.detached

/-- One link for every edge across a border, however many links of the graph run along it. -/
def bridges (g : Graph) (E : Finset String) : List Link :=
  ((g.links.map Link.ends).dedup.filter (g.crosses E)).map g.bridge

/-! ## Reading the definitions -/

variable {g : Graph} {E : Finset String}

@[simp] theorem open_empty {folder : String} : g.Open ∅ folder ↔ ¬ g.Shared folder := by
  simp [Open]

theorem shows_iff {id : String} :
    g.shows E id = true ↔ ∃ n, g.node? id = some n ∧ g.Open E n.folder := by
  cases h : g.node? id <;> simp [shows, h]

theorem showsEnds_iff {l : Link} : g.showsEnds E l = true ↔ ∃ s t,
    g.node? l.source = some s ∧ g.node? l.target = some t ∧
      g.Open E s.folder ∧ g.Open E t.folder := by
  simp only [showsEnds, Bool.and_eq_true, shows_iff]
  constructor
  · rintro ⟨⟨s, hs, hsource⟩, t, ht, htarget⟩
    exact ⟨s, t, hs, ht, hsource, htarget⟩
  · rintro ⟨s, t, hs, ht, hsource, htarget⟩
    exact ⟨⟨s, hs, hsource⟩, t, ht, htarget⟩

theorem showsEnds_of_node? {l : Link} {s t : Node} (hs : g.node? l.source = some s)
    (ht : g.node? l.target = some t) :
    g.showsEnds E l = true ↔ g.Open E s.folder ∧ g.Open E t.folder := by
  simp [showsEnds, shows, hs, ht]

theorem showsEnds_of_resolve?_eq_none {l : Link} (h : g.resolve? l = none) :
    g.showsEnds E l = false := by
  rw [Bool.eq_false_iff]
  intro hshown
  obtain ⟨s, t, hs, ht, -⟩ := showsEnds_iff.mp hshown
  rw [resolve?_eq_some_iff.mpr ⟨hs, ht⟩] at h
  cases h

theorem representative_of_node? {id : String} {n : Node} (h : g.node? id = some n) :
    g.representative id = if g.Shared n.folder then Node.groupId n.folder else id := by
  simp [representative, h]

theorem crosses_iff {e : String × String} :
    g.crosses E e = true ↔ ∃ s t, g.node? e.1 = some s ∧ g.node? e.2 = some t ∧
      s.folder ≠ t.folder ∧ (g.Shared s.folder ∨ g.Shared t.folder) ∧
      s.folder ∉ E ∧ t.folder ∉ E := by
  cases hs : g.node? e.1 <;> cases ht : g.node? e.2 <;> simp [crosses, hs, ht]

@[simp] theorem shownLinks_detached (g : Graph) (E : Finset String) :
    g.detached.shownLinks E = g.shownLinks E := by
  simp only [shownLinks, detached, List.filter_map, List.map_map]
  rfl

@[simp] theorem bridges_detached (g : Graph) (E : Finset String) :
    g.detached.bridges E = g.bridges E := by
  rw [bridges, bridges, ends_links_detached]
  rfl

/-! ## The folded view -/

theorem foldedNodes_groups (g : Graph) :
    g.foldedNodes g.groups = g.openNodes ∅ ++ g.closedGroups ∅ := by
  have hopen : (g.nodes.filter fun n => !g.groups.contains n.folder) = g.openNodes ∅ := by
    simp [openNodes]
  have hclosed : g.groups.map NodeGroup.foldedNode = g.closedGroups ∅ := by
    simp [closedGroups, groups, groupOf, NodeGroup.foldedNode, NodeGroup.memberIds,
      Function.comp_def]
  rw [foldedNodes, hopen, hclosed]

/-- Nothing that stands for an id of the graph is missing from the folded view. -/
theorem representative_mem_foldedNodes {id : String} {n : Node} (h : g.node? id = some n) :
    g.representative id ∈ (g.foldedNodes g.groups).map (·.id) := by
  rw [representative_of_node? h, foldedNodes_groups]
  by_cases hs : g.Shared n.folder
  · have hgroup : Node.ofGroup n.folder ((g.inFolder n.folder).map (·.id)) ∈ g.closedGroups ∅ := by
      simp only [closedGroups, List.mem_map, List.mem_filter, mem_sharedFolders]
      exact ⟨n.folder, ⟨hs, by simp⟩, rfl⟩
    rw [if_pos hs]
    exact List.mem_map.mpr ⟨_, List.mem_append_right _ hgroup, rfl⟩
  · have hopen : n ∈ g.openNodes ∅ := by
      simp [openNodes, hs, mem_nodes_of_node? h]
    rw [if_neg hs]
    exact List.mem_map.mpr ⟨n, List.mem_append_left _ hopen, node?_id h⟩

theorem openLinks_groups (g : Graph) : g.openLinks g.groups = g.shownLinks ∅ := by
  rw [openLinks, shownLinks]
  refine filterMap_spans (fun l h => showsEnds_of_resolve?_eq_none h) ?_
  intro l s t hs ht
  simp [showsEnds_of_node? hs ht]

/-- What stands outside in the stand-in of a crossing is the outer end's representative. -/
theorem outside_eq_representative {id : String} {n : Node} (h : g.node? id = some n) :
    ((if n.folder ∈ g.sharedFolders then some n.folder else none).map Node.groupId).getD n.id =
      g.representative id := by
  rw [representative_of_node? h, node?_id h]
  by_cases hs : g.Shared n.folder <;> simp [hs]

/-- Every crossing of every group turns into the bridge of its edge. Both representatives are there,
and the member is the source exactly when the link starts in the group: its two ends lie in different
folders, so they have different ids. -/
theorem standIn?_crossing {folder : String} {c : Crossing} (hf : g.Shared folder)
    (hc : c ∈ (g.group folder).crossings) :
    standIn? ((g.foldedNodes g.groups).map (·.id)) (g.group folder) c =
      some (g.bridge c.link.ends) := by
  obtain ⟨l, -, s, t, hs, ht, hc⟩ := mem_crossings.mp hc
  have hsource := representative_mem_foldedNodes hs
  have htarget := representative_mem_foldedNodes ht
  rcases Span.crossing?_of_eq_some_iff.mp hc with ⟨rfl, hne, rfl⟩ | ⟨rfl, hne, rfl⟩
  · have hinside : Node.groupId s.folder = g.representative l.source := by
      rw [representative_of_node? hs, if_pos hf]
    simp only [standIn?, NodeGroup.nodeId, folder_group, node?_id hs, if_true,
      outside_eq_representative ht, hinside]
    rw [if_pos ⟨hsource, htarget⟩]
    rfl
  · have hinside : Node.groupId t.folder = g.representative l.target := by
      rw [representative_of_node? ht, if_pos hf]
    have hends : l.source ≠ l.target := by
      intro h
      rw [h, ht] at hs
      cases hs
      exact hne rfl
    simp only [standIn?, NodeGroup.nodeId, folder_group, node?_id ht, hends, if_false,
      outside_eq_representative hs, hinside]
    rw [if_pos ⟨hsource, htarget⟩]
    rfl

/-- The edges of the crossings of all groups are the edges that cross. -/
theorem mem_ends_crossings {e : String × String} :
    e ∈ (g.groups.flatMap fun G => G.crossings.map (G, ·)).map (fun p => p.2.link.ends) ↔
      e ∈ g.links.map Link.ends ∧ g.crosses ∅ e = true := by
  simp only [List.mem_map, List.mem_flatMap, mem_groups, crosses_iff]
  constructor
  · rintro ⟨_, ⟨_, ⟨f, hf, rfl⟩, c, hc, rfl⟩, rfl⟩
    obtain ⟨l, hl, s, t, hs, ht, hc⟩ := mem_crossings.mp hc
    rcases Span.crossing?_of_eq_some_iff.mp hc with ⟨rfl, hne, rfl⟩ | ⟨rfl, hne, rfl⟩
    · exact ⟨⟨l, hl, rfl⟩, s, t, hs, ht, hne.symm, .inl hf, by simp, by simp⟩
    · exact ⟨⟨l, hl, rfl⟩, s, t, hs, ht, hne, .inr hf, by simp, by simp⟩
  · rintro ⟨⟨l, hl, rfl⟩, s, t, hs, ht, hne, hshared, -, -⟩
    -- the edge is recorded on the source's group, or on the target's if the source has none
    rcases hshared with hf | hf
    · have hc : _ ∈ (g.group s.folder).crossings :=
        mem_crossings.mpr ⟨l, hl, s, t, hs, ht,
          Span.crossing?_of_eq_some_iff.mpr (.inl ⟨rfl, hne.symm, rfl⟩)⟩
      exact ⟨(g.group s.folder, _), ⟨_, ⟨_, hf, rfl⟩, _, hc, rfl⟩, rfl⟩
    · have hc : _ ∈ (g.group t.folder).crossings :=
        mem_crossings.mpr ⟨l, hl, s, t, hs, ht,
          Span.crossing?_of_eq_some_iff.mpr (.inr ⟨rfl, hne, rfl⟩)⟩
      exact ⟨(g.group t.folder, _), ⟨_, ⟨_, hf, rfl⟩, _, hc, rfl⟩, rfl⟩

theorem standIn?_borderCrossing {p : NodeGroup × Crossing} (hp : p ∈ borderCrossings g.groups) :
    standIn? ((g.foldedNodes g.groups).map (·.id)) p.1 p.2 = some (g.bridge p.2.link.ends) := by
  have hmem := mem_of_mem_distinctBy hp
  simp only [List.mem_flatMap, List.mem_map] at hmem
  obtain ⟨_, hG, c, hc, rfl⟩ := hmem
  obtain ⟨f, hf, rfl⟩ := mem_groups.mp hG
  exact standIn?_crossing hf hc

/-- A border is crossed along each edge once, whichever groups recorded it. -/
theorem borderCrossings_perm (g : Graph) :
    ((borderCrossings g.groups).map fun p => p.2.link.ends).Perm
      ((g.links.map Link.ends).dedup.filter (g.crosses ∅)) := by
  have hnodup : ((borderCrossings g.groups).map fun p => p.2.link.ends).Nodup :=
    nodup_map_distinctBy _ _
  refine (List.perm_ext_iff_of_nodup hnodup ((List.nodup_dedup _).filter _)).mpr ?_
  intro e
  rw [borderCrossings, mem_map_distinctBy, mem_ends_crossings, List.mem_filter, List.mem_dedup]

/-- The folded view holds the links between nodes outside all groups, in order, and then the bridges. -/
theorem links_folded (g : Graph) :
    ∃ crossed, (g.folded g.groups).links = g.shownLinks ∅ ++ crossed ∧
      crossed.Perm (g.bridges ∅) := by
  refine ⟨_, congrArg (· ++ _) (openLinks_groups g), ?_⟩
  -- no crossing is without a stand-in, so the stand-ins are a map over the edges
  have hbridges := List.filterMap_congr fun p hp => standIn?_borderCrossing (g := g) (p := p) hp
  have hmap := (borderCrossings_perm g).map g.bridge
  rw [List.map_map, ← List.filterMap_eq_map, Function.comp_def, Function.comp_def, ← hbridges] at hmap
  exact hmap

/-! ## Links that come back -/

/-- Unfolding brings back the links of the graph that have an end in the group and both ends in sight,
where the members of the group are always in sight. -/
theorem unfoldedLinks_eq (g : Graph) (G : NodeGroup) (present : List String) :
    g.unfoldedLinks G present = g.spans.filterMap fun k =>
      if (k.sourceFolder = G.folder ∨ k.targetFolder = G.folder) ∧
          (k.sourceFolder = G.folder ∨ k.link.source ∈ present) ∧
          (k.targetFolder = G.folder ∨ k.link.target ∈ present)
      then some k.link.detached else none := by
  apply List.filterMap_congr
  intro k _
  by_cases hs : k.sourceFolder = G.folder <;> by_cases ht : k.targetFolder = G.folder <;>
    simp [hs, ht]

end Graph

/-- Applying a new grouping to any graph yields the quotient of its links: first the links whose ends
lie in no group, in order and as often as they occur, then one bridge for every edge across a border,
and nothing else. -/
theorem Grouping.links_start_quotient (g : Graph) :
    ∃ crossed, (start g).2.links = g.shownLinks ∅ ++ crossed ∧ crossed.Perm (g.bridges ∅) := by
  obtain ⟨crossed, hlinks, hcrossed⟩ := g.detached.links_folded
  rw [Graph.shownLinks_detached] at hlinks
  rw [Graph.bridges_detached] at hcrossed
  exact ⟨crossed, hlinks, hcrossed⟩

end ImportAtlas
