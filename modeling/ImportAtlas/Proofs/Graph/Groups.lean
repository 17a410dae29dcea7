-- SUMMARY: Which folders of a graph form groups, what each group holds, and how links meet the nodes at their ends.
import ImportAtlas.Graph.Folder
import Mathlib.Data.List.Nodup
import Mathlib.Data.List.Perm.Basic

/-! # The groups of a graph

A folder forms a group exactly when two nodes lie in it. This module says so for `sharedFolders`, and
then reads look-ups among the groups, the links with both ends in the graph, and the crossings of a
group off that fact. Nothing is assumed of the graph: ids may repeat and links may dangle. -/

namespace ImportAtlas

theorem Node.groupId_inj {a b : String} : Node.groupId a = Node.groupId b ↔ a = b :=
  String.append_right_inj "group_"

/-- What satisfies one of two tests that exclude each other, sorted by which one it satisfies. -/
theorem filter_append_filter_perm {α : Type} {P Q R : α → Bool} {l : List α}
    (hor : ∀ a ∈ l, R a = (P a || Q a)) (hnot : ∀ a ∈ l, Q a = true → P a = false) :
    (l.filter P ++ l.filter Q).Perm (l.filter R) := by
  have hP : (l.filter R).filter P = l.filter P := by
    rw [List.filter_filter]
    apply List.filter_congr
    intro a ha
    rw [hor a ha]
    cases P a <;> simp
  have hQ : (l.filter R).filter (fun a => !P a) = l.filter Q := by
    rw [List.filter_filter]
    apply List.filter_congr
    intro a ha
    rw [hor a ha]
    cases hq : Q a with
    | false => cases P a <;> rfl
    | true => simp [hnot a ha hq]
  have h := List.filter_append_perm P (l.filter R)
  rwa [hP, hQ] at h

namespace Span

variable (l : Link) (s t : Node)

@[simp] theorem link_of : (Span.of l s t).link = l := rfl

@[simp] theorem source_of : (Span.of l s t).source = s := rfl

@[simp] theorem target_of : (Span.of l s t).target = t := rfl

@[simp] theorem sourceFolder_of : (Span.of l s t).sourceFolder = s.folder := rfl

@[simp] theorem targetFolder_of : (Span.of l s t).targetFolder = t.folder := rfl

variable {l s t}

/-- A link crosses the border of a folder where exactly one of its ends lies in it, and that end is
the member. -/
theorem crossing?_of_eq_some_iff {shared : List String} {folder : String} {c : Crossing} :
    crossing? shared folder (Span.of l s t) = some c ↔
      (s.folder = folder ∧ t.folder ≠ folder ∧
        c = ⟨s.id, t.id, if t.folder ∈ shared then some t.folder else none, l⟩) ∨
      (t.folder = folder ∧ s.folder ≠ folder ∧
        c = ⟨t.id, s.id, if s.folder ∈ shared then some s.folder else none, l⟩) := by
  simp only [crossing?, link_of, source_of, target_of, sourceFolder_of, targetFolder_of]
  by_cases hs : s.folder = folder <;> by_cases ht : t.folder = folder <;> simp [hs, ht]
  · exact eq_comm
  · exact eq_comm

end Span

namespace Graph

variable {g : Graph}

-- ---------------------------------------------------------------------------
-- Looking up ids
-- ---------------------------------------------------------------------------

theorem mem_nodes_of_node? {id : String} {n : Node} (h : g.node? id = some n) : n ∈ g.nodes :=
  List.mem_of_find?_eq_some h

theorem mem_ids_of_node? {id : String} {n : Node} (h : g.node? id = some n) : id ∈ g.ids := by
  rw [← node?_id h]
  exact List.mem_map_of_mem (mem_nodes_of_node? h)

theorem node?_eq_none_iff {id : String} : g.node? id = none ↔ id ∉ g.ids := by
  simp [node?, ids]

/-- Where no id repeats, every node is the one that its id finds. -/
theorem node?_of_mem {n : Node} (hids : g.ids.Nodup) (hn : n ∈ g.nodes) : g.node? n.id = some n := by
  cases h : g.node? n.id with
  | none =>
    rw [node?_eq_none_iff] at h
    exact absurd (List.mem_map_of_mem hn) h
  | some m =>
    have hm : m = n := List.inj_on_of_nodup_map hids (mem_nodes_of_node? h) hn (node?_id h)
    rw [hm]

@[simp] theorem ends_links_detached (g : Graph) :
    g.detached.links.map Link.ends = g.links.map Link.ends := by
  simp [detached]

-- ---------------------------------------------------------------------------
-- Shared folders
-- ---------------------------------------------------------------------------

/-- At least two nodes lie in the folder. -/
def Shared (g : Graph) (folder : String) : Prop := 2 ≤ (g.inFolder folder).length

instance (g : Graph) (folder : String) : Decidable (g.Shared folder) :=
  inferInstanceAs (Decidable (2 ≤ _))

theorem count_folders (g : Graph) (folder : String) :
    (g.nodes.map (·.folder)).count folder = (g.inFolder folder).length := by
  rw [List.count, List.countP_map, List.countP_eq_length_filter]
  rfl

@[simp] theorem mem_sharedFolders {folder : String} :
    folder ∈ g.sharedFolders ↔ g.Shared folder := by
  simp only [sharedFolders, List.mem_filter, decide_eq_true_eq, count_folders, Shared,
    and_iff_right_iff_imp]
  intro h
  -- a folder that counts twice occurs, and what occurs is still there without repetitions
  have hmem : folder ∈ g.nodes.map (·.folder) := by
    rw [← List.count_pos_iff, count_folders]
    omega
  rw [← List.map_id (g.nodes.map (·.folder)), ← mem_map_distinctBy, List.map_id] at hmem
  exact hmem

theorem nodup_sharedFolders (g : Graph) : g.sharedFolders.Nodup := by
  have h := nodup_map_distinctBy id (g.nodes.map (·.folder))
  rw [List.map_id] at h
  exact h.filter _

-- ---------------------------------------------------------------------------
-- Groups
-- ---------------------------------------------------------------------------

/-- The group that a folder forms in the graph. -/
abbrev group (g : Graph) (folder : String) : NodeGroup :=
  g.groupOf g.sharedFolders g.spans folder

theorem mem_groups {G : NodeGroup} : G ∈ g.groups ↔ ∃ f, g.Shared f ∧ g.group f = G := by
  simp [groups]

@[simp] theorem contains_groups (folder : String) :
    g.groups.contains folder = decide (g.Shared folder) := by
  rw [Bool.eq_iff_iff]
  simp [Groups.contains, groups, groupOf]

theorem get?_groups (folder : String) :
    g.groups.get? folder = if g.Shared folder then some (g.group folder) else none := by
  cases h : g.groups.get? folder with
  | none =>
    have hno : ¬ g.Shared folder := by
      intro hs
      have := List.find?_eq_none.mp h (g.group folder) (mem_groups.mpr ⟨folder, hs, rfl⟩)
      simp [groupOf] at this
    simp [hno]
  | some G =>
    obtain ⟨f, hs, rfl⟩ := mem_groups.mp (List.mem_of_find?_eq_some h)
    have hf : f = folder := by simpa [groupOf] using List.find?_some h
    subst hf
    simp [hs]

@[simp] theorem folder_group (folder : String) : (g.group folder).folder = folder := rfl

theorem mem_inFolder {folder : String} {n : Node} :
    n ∈ g.inFolder folder ↔ n ∈ g.nodes ∧ n.folder = folder := by
  simp [inFolder]

-- ---------------------------------------------------------------------------
-- Links with both ends in the graph
-- ---------------------------------------------------------------------------

theorem resolve?_eq_some_iff {l : Link} {s t : Node} :
    g.resolve? l = some (s, t) ↔ g.node? l.source = some s ∧ g.node? l.target = some t := by
  cases hs : g.node? l.source <;> cases ht : g.node? l.target <;> simp [resolve?, hs, ht]

theorem mem_spans {k : Span} :
    k ∈ g.spans ↔ ∃ l ∈ g.links, ∃ s t,
      g.node? l.source = some s ∧ g.node? l.target = some t ∧ k = Span.of l s t := by
  constructor
  · intro h
    simp only [spans, List.mem_filterMap, Option.map_eq_some_iff] at h
    obtain ⟨l, hl, ⟨s, t⟩, hst, rfl⟩ := h
    obtain ⟨hs, ht⟩ := resolve?_eq_some_iff.mp hst
    exact ⟨l, hl, s, t, hs, ht, rfl⟩
  · rintro ⟨l, hl, s, t, hs, ht, rfl⟩
    simp only [spans, List.mem_filterMap, Option.map_eq_some_iff]
    exact ⟨l, hl, (s, t), resolve?_eq_some_iff.mpr ⟨hs, ht⟩, rfl⟩

theorem mem_crossings {folder : String} {c : Crossing} :
    c ∈ (g.group folder).crossings ↔ ∃ l ∈ g.links, ∃ s t,
      g.node? l.source = some s ∧ g.node? l.target = some t ∧
      Span.crossing? g.sharedFolders folder (Span.of l s t) = some c := by
  simp only [groupOf, List.mem_filterMap, mem_spans]
  constructor
  · rintro ⟨k, ⟨l, hl, s, t, hs, ht, rfl⟩, hc⟩
    exact ⟨l, hl, s, t, hs, ht, hc⟩
  · rintro ⟨l, hl, s, t, hs, ht, hc⟩
    exact ⟨_, ⟨l, hl, s, t, hs, ht, rfl⟩, hc⟩

/-- Selecting spans and detaching their links is selecting links, by what the nodes at their ends
say. -/
theorem filterMap_spans {P : Span → Prop} [DecidablePred P] {Q : Link → Bool}
    (hnone : ∀ l, g.resolve? l = none → Q l = false)
    (hsome : ∀ l s t, g.node? l.source = some s → g.node? l.target = some t →
      (Q l = true ↔ P (Span.of l s t))) :
    (g.spans.filterMap fun k => if P k then some k.link.detached else none) =
      (g.links.filter Q).map Link.detached := by
  rw [spans, List.filterMap_filterMap, ← List.filterMap_eq_map, List.filterMap_filter]
  congr 1
  funext l
  cases h : g.resolve? l with
  | none => simp [hnone l h]
  | some p =>
    obtain ⟨hs, ht⟩ := resolve?_eq_some_iff.mp h
    have hQ := hsome l p.1 p.2 hs ht
    by_cases hP : P (Span.of l p.1 p.2)
    · simp [hP, hQ.mpr hP]
    · simp [hP, mt hQ.mp hP]

end Graph

end ImportAtlas
