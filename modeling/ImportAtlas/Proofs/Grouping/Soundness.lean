-- SUMMARY: Every link of every view that a grouping returns leads from node to node and stands for a link of the loaded graph.
import ImportAtlas.Proofs.Grouping.Quotient

/-! # Soundness of links

A view is sound for a graph when each of its links has both ends among the view's nodes, is marked as
a stand-in exactly if it stands for something, and goes back to a link of the graph. Folding
establishes this for any graph, unfolding keeps it for any view, and reverting needs that the graph
itself has no dangling link. -/

namespace ImportAtlas

/-- The ends of the link of the loaded graph that a link is about: of the one it stands for, or of
itself. -/
def Link.edge (l : Link) : String × String := (l.stoodFor?.getD l).ends

namespace Graph

structure SoundLink (g view : Graph) (l : Link) : Prop where
  source_mem : l.source ∈ view.ids
  target_mem : l.target ∈ view.ids
  grouped_iff : l.grouped = true ↔ l.stoodFor?.isSome
  edge_mem : l.edge ∈ g.links.map Link.ends

/-- The links of a view lead from node to node and stand for links of `g`. -/
def Sound (g view : Graph) : Prop := ∀ l ∈ view.links, g.SoundLink view l

variable {g view : Graph}

theorem soundLink_detached {l : Link} (hl : l ∈ g.links) (hs : l.source ∈ view.ids)
    (ht : l.target ∈ view.ids) : g.SoundLink view l.detached where
  source_mem := hs
  target_mem := ht
  grouped_iff := by simp [Link.detached, Link.between, Link.stoodFor?]
  edge_mem := List.mem_map.mpr ⟨l, hl, rfl⟩

theorem sound_detached_iff : g.detached.Sound view ↔ g.Sound view := by
  constructor
  · intro h l hl
    obtain ⟨hs, ht, hgrouped, hedge⟩ := h l hl
    rw [ends_links_detached] at hedge
    exact ⟨hs, ht, hgrouped, hedge⟩
  · intro h l hl
    obtain ⟨hs, ht, hgrouped, hedge⟩ := h l hl
    rw [← ends_links_detached] at hedge
    exact ⟨hs, ht, hgrouped, hedge⟩

-- ---------------------------------------------------------------------------
-- Folding
-- ---------------------------------------------------------------------------

theorem mem_ids_folded_of_open {id : String} {n : Node} (hn : g.node? id = some n)
    (hopen : g.Open ∅ n.folder) : id ∈ (g.folded g.groups).ids := by
  have hrep := representative_mem_foldedNodes hn
  rw [representative_of_node? hn, if_neg (open_empty.mp hopen)] at hrep
  exact hrep

theorem sound_folded (g : Graph) : g.Sound (g.folded g.groups) := by
  intro l hl
  obtain ⟨crossed, hlinks, hcrossed⟩ := g.links_folded
  rw [hlinks, List.mem_append, hcrossed.mem_iff] at hl
  rcases hl with hl | hl
  · simp only [shownLinks, List.mem_map, List.mem_filter, showsEnds_iff] at hl
    obtain ⟨k, ⟨hk, s, t, hs, ht, hsource, htarget⟩, rfl⟩ := hl
    exact soundLink_detached hk (mem_ids_folded_of_open hs hsource)
      (mem_ids_folded_of_open ht htarget)
  · simp only [bridges, List.mem_map, List.mem_filter, List.mem_dedup] at hl
    obtain ⟨e, ⟨he, hcross⟩, rfl⟩ := hl
    obtain ⟨s, t, hs, ht, -⟩ := crosses_iff.mp hcross
    refine ⟨representative_mem_foldedNodes hs, representative_mem_foldedNodes ht, ?_, ?_⟩
    · simp [bridge, Link.stoodFor?]
    · exact List.mem_map.mpr he

-- ---------------------------------------------------------------------------
-- Unfolding
-- ---------------------------------------------------------------------------

theorem mem_ids_unfold {id x : String} {G : NodeGroup} (hx : x ∈ view.ids) (hne : x ≠ id) :
    x ∈ (g.unfold view id G).ids := by
  obtain ⟨n, hn, rfl⟩ := List.mem_map.mp hx
  have hkept : n ∈ view.nodes.eraseP (·.id == id) :=
    (List.mem_eraseP_of_neg (by simpa using hne)).mpr hn
  exact List.mem_map_of_mem (List.mem_append_left _ hkept)

theorem member_mem_ids_unfold {id x : String} {n : Node} (hn : g.node? x = some n) :
    x ∈ (g.unfold view id (g.group n.folder)).ids := by
  have hmember : n ∈ (g.group n.folder).members :=
    mem_inFolder.mpr ⟨mem_nodes_of_node? hn, rfl⟩
  rw [← node?_id hn]
  exact List.mem_map_of_mem (List.mem_append_right _ hmember)

/-- Unfolding any id into any group keeps a view sound, also where the id is not that of the group:
the links at the id go, so every other link keeps its ends, and a link comes back only between nodes
that are there. -/
theorem Sound.unfold (h : g.Sound view) (id folder : String) :
    g.Sound (g.unfold view id (g.group folder)) := by
  intro l hl
  rcases List.mem_append.mp hl with hl | hl
  · simp only [List.mem_filter, Link.touches, Bool.not_or, Bool.and_eq_true, Bool.not_eq_true',
      beq_eq_false_iff_ne] at hl
    obtain ⟨hl, hs, ht⟩ := hl
    obtain ⟨hsource, htarget, hgrouped, hedge⟩ := h l hl
    exact ⟨mem_ids_unfold hsource hs, mem_ids_unfold htarget ht, hgrouped, hedge⟩
  · simp only [unfoldedLinks_eq, List.mem_filterMap, Option.ite_none_right_eq_some,
      Option.some.injEq] at hl
    obtain ⟨k, hk, ⟨-, hs, ht⟩, rfl⟩ := hl
    obtain ⟨l, hlink, s, t, hsource, htarget, rfl⟩ := mem_spans.mp hk
    apply soundLink_detached hlink
    · rcases hs with rfl | hs
      · exact member_mem_ids_unfold hsource
      · exact hs
    · rcases ht with rfl | ht
      · exact member_mem_ids_unfold htarget
      · exact ht

-- ---------------------------------------------------------------------------
-- Reverting
-- ---------------------------------------------------------------------------

theorem sound_detached (h : ∀ l ∈ g.links, (g.resolve? l).isSome) : g.Sound g.detached := by
  intro l hl
  obtain ⟨k, hk, rfl⟩ := List.mem_map.mp hl
  obtain ⟨⟨s, t⟩, hst⟩ := Option.isSome_iff_exists.mp (h k hk)
  obtain ⟨hs, ht⟩ := resolve?_eq_some_iff.mp hst
  exact soundLink_detached hk (mem_ids_of_node? hs) (mem_ids_of_node? ht)

end Graph

namespace Grouping

open ImportAtlas.Graph

variable {b view : Graph} {t : Grouping}

theorem sound_toggled (h : b.Sound view) (id : String) :
    b.Sound (toggled b view id) := by
  rw [toggled]
  split
  · exact h
  · split
    · exact sound_folded b
    · split
      · exact h.unfold id _
      · exact h

/-- One request keeps a view sound, reverting only if the loaded graph is. -/
theorem Loaded.sound_answer (ht : Loaded b t) (h : b.Sound view) (r : Request)
    (hrevert : r = .revert → b.Sound b.detached) : b.Sound (t.answer view r).2 := by
  cases r with
  | apply =>
    rw [answer, ht.value_apply]
    split
    · exact h
    · exact sound_folded b
  | toggle id =>
    rw [answer, ht.value_toggle]
    exact sound_toggled h id
  | collapse folder =>
    rw [answer, ht.value_collapse]
    exact sound_folded b
  | collapseAll =>
    rw [answer, ht.value_collapseAll]
    exact sound_folded b
  | revert =>
    rw [answer, ht.revert_eq]
    split
    · exact hrevert rfl
    · exact h

/-- Every view of every history is sound for the graph that the history started with. Ids may repeat,
links may dangle and nodes may pass for groups; only where the history reverts, the links of the graph
have to resolve. -/
theorem sound_browse (g : Graph) (rs : List Request)
    (hrevert : .revert ∈ rs → ∀ l ∈ g.links, (g.resolve? l).isSome) :
    g.Sound (browse g rs).2 := by
  rw [← sound_detached_iff]
  induction rs using List.reverseRecOn with
  | nil => exact sound_folded g.detached
  | append_singleton rs r ih =>
    have hview := ih fun hmem => hrevert (List.mem_append_left _ hmem)
    rw [browse_concat]
    refine (loaded_browse g rs).sound_answer hview r ?_
    rintro rfl
    rw [sound_detached_iff, detached_detached]
    exact sound_detached (hrevert (by simp))

/-- A graph with a repeated id and a node that passes for the group of a folder it does not lie in,
unfolded there, reverted and unfolded again. -/
theorem sound_browse_impostor :
    let g : Graph :=
      { nodes := [⟨"x", "a/x", .project, none⟩, ⟨"y", "a/y", .project, none⟩,
          ⟨"y", "c", .project, some ⟨false, "a", []⟩⟩, ⟨"p", "z/p", .group, some ⟨false, "a", ["q"]⟩⟩]
        links := [.between "x" "y", .between "p" "x", .between "p" "y"] }
    let rs : List Request := [.toggle "p", .revert, .toggle "p", .apply]
    (∀ l ∈ g.links, (g.resolve? l).isSome) ∧ g.Sound (browse g rs).2 :=
  ⟨by decide, sound_browse _ _ fun _ => by decide⟩

end Grouping

end ImportAtlas
