-- SUMMARY: Each link across the border of a group is recorded by it once, and mirrored on the other side.
import ImportAtlas.Proofs.Graph.Groups
import Mathlib.Data.List.Forall2

/-! # The borders of groups

A group records the links that lead from its members to nodes outside, in the order of the graph. Which
links these are is said here by the nodes at their ends alone: the first nodes with the two ids, and
the folders that these lie in. So a link between two groups is found on both sides, seen from either
end; one between a group and a node that is left over is found in that group; and no other link is
recorded at all. A link that the graph has several times is recorded as often. -/

namespace ImportAtlas

/-! ## Selecting and recording -/

section
variable {α β : Type}

/-- What a partial function makes of a list stands in the order of the elements that it accepts. -/
theorem forall₂_filter_filterMap {f : α → Option β} {p : α → Bool} {R : α → β → Prop}
    (hp : ∀ a, p a = true ↔ ∃ b, f a = some b) (hR : ∀ a b, f a = some b → R a b) (l : List α) :
    List.Forall₂ R (l.filter p) (l.filterMap f) := by
  induction l with
  | nil => exact .nil
  | cons a l ih =>
    cases hfa : f a with
    | none =>
      have hpa : ¬ p a = true := by simp [hp, hfa]
      rw [List.filter_cons_of_neg hpa, List.filterMap_cons_none hfa]
      exact ih
    | some b =>
      rw [List.filter_cons_of_pos ((hp a).mpr ⟨b, hfa⟩), List.filterMap_cons_some hfa]
      exact .cons (hR a b hfa) ih

/-- Where each result names the element that it comes from, the results that name one element come
from its occurrences. -/
theorem filter_filterMap_eq [DecidableEq α] {f : α → Option β} {key : β → α}
    (hkey : ∀ a b, f a = some b → key b = a) (k : α) (l : List α) :
    (l.filterMap f).filter (key · = k) = (List.replicate (l.count k) k).filterMap f := by
  rw [← List.filter_eq, List.filter_filterMap, List.filterMap_filter]
  congr 1
  funext a
  cases hfa : f a with
  | none => simp
  | some b =>
    rw [Option.filter_some, hkey a b hfa]

end

/-! ## What a crossing tells -/

namespace Graph

/-- The first node with an id. -/
def IsFirst (g : Graph) (id : String) (n : Node) : Prop :=
  n.id = id ∧ ∃ before after, g.nodes = before ++ n :: after ∧ ∀ m ∈ before, m.id ≠ id

/-- A link leads from one node to another: these are the first nodes with the ids of its ends. -/
def Joins (g : Graph) (l : Link) (source target : Node) : Prop :=
  g.IsFirst l.source source ∧ g.IsFirst l.target target

/-- A link joins two nodes, in either direction. -/
def Meets (g : Graph) (l : Link) (a b : Node) : Prop := g.Joins l a b ∨ g.Joins l b a

/-- Exactly one end of the link lies in the folder. -/
def Crosses (g : Graph) (folder : String) (l : Link) : Prop :=
  ∃ inside outside, g.Meets l inside outside ∧ inside.folder = folder ∧ outside.folder ≠ folder

end Graph

/-- The crossing tells of a link between two nodes, seen from the first of them. -/
structure Crossing.Tells (c : Crossing) (Gs : Groups) (l : Link) (a b : Node) : Prop where
  member : c.member = a.id
  outside : c.outside = b.id
  link : c.link = l
  /-- the folder outside is named exactly if it is a group too -/
  outsideFolder {q : String} : c.outsideFolder = some q ↔ b.folder = q ∧ q ∈ Gs.folders

/-- The crossings by which a group records a link. -/
def NodeGroup.recordsOf (G : NodeGroup) (l : Link) : List Crossing := G.crossings.filter (·.link = l)

/-- The groups that record a link. -/
def Groups.recording (Gs : Groups) (l : Link) : List NodeGroup := Gs.filter (·.recordsOf l ≠ [])

namespace Graph

variable {g : Graph}

theorem isFirst_iff {id : String} {n : Node} : g.IsFirst id n ↔ g.node? id = some n := by
  rw [node?, List.find?_eq_some_iff_append, IsFirst]
  simp

theorem joins_iff {l : Link} {s t : Node} : g.Joins l s t ↔ g.resolve? l = some (s, t) := by
  rw [Joins, isFirst_iff, isFirst_iff, resolve?_eq_some_iff]

/-- The crossing that a link makes on the border of a folder of the graph. -/
def crossing? (g : Graph) (folder : String) (l : Link) : Option Crossing :=
  (g.resolve? l).bind fun p => Span.crossing? g.sharedFolders folder (Span.of l p.1 p.2)

theorem crossings_group (folder : String) :
    (g.group folder).crossings = g.links.filterMap (g.crossing? folder) := by
  have hspans : (g.group folder).crossings =
      g.spans.filterMap (Span.crossing? g.sharedFolders folder) := rfl
  rw [hspans, spans, List.filterMap_filterMap]
  congr 1
  funext l
  rw [crossing?, Option.bind_map]
  apply Option.bind_congr
  rintro ⟨s, t⟩ -
  rw [Function.comp_apply]

/-- The crossing from the node inside, where both nodes are known. -/
def crossingFrom (g : Graph) (l : Link) (inside outside : Node) : Crossing :=
  ⟨inside.id, outside.id, if outside.folder ∈ g.sharedFolders then some outside.folder else none, l⟩

theorem crossing?_eq_some_iff {folder : String} {l : Link} {c : Crossing} :
    g.crossing? folder l = some c ↔ ∃ inside outside, g.Meets l inside outside ∧
      inside.folder = folder ∧ outside.folder ≠ folder ∧ c = g.crossingFrom l inside outside := by
  constructor
  · intro h
    obtain ⟨⟨s, t⟩, hst, hc⟩ := Option.bind_eq_some_iff.mp h
    rcases Span.crossing?_of_eq_some_iff.mp hc with ⟨hs, ht, rfl⟩ | ⟨ht, hs, rfl⟩
    · exact ⟨s, t, .inl (joins_iff.mpr hst), hs, ht, rfl⟩
    · exact ⟨t, s, .inr (joins_iff.mpr hst), ht, hs, rfl⟩
  · rintro ⟨a, b, hjoins | hjoins, ha, hb, rfl⟩
    · refine Option.bind_eq_some_iff.mpr ⟨(a, b), joins_iff.mp hjoins, ?_⟩
      exact Span.crossing?_of_eq_some_iff.mpr (.inl ⟨ha, hb, rfl⟩)
    · refine Option.bind_eq_some_iff.mpr ⟨(b, a), joins_iff.mp hjoins, ?_⟩
      exact Span.crossing?_of_eq_some_iff.mpr (.inr ⟨ha, hb, rfl⟩)

theorem crosses_iff_exists {folder : String} {l : Link} :
    g.Crosses folder l ↔ ∃ c, g.crossing? folder l = some c := by
  constructor
  · rintro ⟨a, b, hmeets, ha, hb⟩
    exact ⟨g.crossingFrom l a b, crossing?_eq_some_iff.mpr ⟨a, b, hmeets, ha, hb, rfl⟩⟩
  · rintro ⟨c, hc⟩
    obtain ⟨a, b, hmeets, ha, hb, -⟩ := crossing?_eq_some_iff.mp hc
    exact ⟨a, b, hmeets, ha, hb⟩

instance (g : Graph) (folder : String) (l : Link) : Decidable (g.Crosses folder l) :=
  decidable_of_iff _ (Option.isSome_iff_exists.trans crosses_iff_exists.symm)

theorem tells_crossingFrom (l : Link) (inside outside : Node) :
    (g.crossingFrom l inside outside).Tells g.groups l inside outside where
  member := rfl
  outside := rfl
  link := rfl
  outsideFolder {q} := by
    rw [folders_groups, crossingFrom]
    constructor
    · intro h
      split at h
      next hshared =>
        obtain rfl := Option.some.inj h
        exact ⟨rfl, hshared⟩
      next => simp at h
    · rintro ⟨rfl, hshared⟩
      rw [if_pos hshared]

/-! ## One group -/

/-- The crossings of a group are one for each link across its border, in the order of the links. -/
theorem forall₂_crossings_group (folder : String) :
    List.Forall₂ (fun l c => ∃ inside outside, g.Meets l inside outside ∧ inside.folder = folder ∧
        outside.folder ≠ folder ∧ c.Tells g.groups l inside outside)
      (g.links.filter (g.Crosses folder)) (g.group folder).crossings := by
  rw [crossings_group]
  apply forall₂_filter_filterMap
  · intro l
    rw [decide_eq_true_iff]
    exact crosses_iff_exists
  · intro l c hc
    obtain ⟨a, b, hmeets, ha, hb, rfl⟩ := crossing?_eq_some_iff.mp hc
    exact ⟨a, b, hmeets, ha, hb, tells_crossingFrom l a b⟩

theorem recordsOf_group (folder : String) (l : Link) :
    (g.group folder).recordsOf l =
      (List.replicate (g.links.count l) l).filterMap (g.crossing? folder) := by
  rw [NodeGroup.recordsOf, crossings_group]
  apply filter_filterMap_eq
  intro k c hc
  obtain ⟨a, b, -, -, -, rfl⟩ := crossing?_eq_some_iff.mp hc
  rfl

/-- A group records each occurrence of a link across its border, seen from the end inside. -/
theorem recordsOf_group_of_meets {l : Link} {inside outside : Node} (h : g.Meets l inside outside)
    (hne : inside.folder ≠ outside.folder) :
    (g.group inside.folder).recordsOf l =
      List.replicate (g.links.count l) (g.crossingFrom l inside outside) := by
  rw [recordsOf_group]
  apply List.filterMap_replicate_of_some
  exact crossing?_eq_some_iff.mpr ⟨inside, outside, h, rfl, hne.symm, rfl⟩

theorem recordsOf_group_ne_nil_iff {folder : String} {l : Link} :
    (g.group folder).recordsOf l ≠ [] ↔ l ∈ g.links ∧ g.Crosses folder l := by
  rw [recordsOf_group, ← List.count_pos_iff, crosses_iff_exists, List.filterMap_replicate]
  cases g.crossing? folder l with
  | none => simp
  | some c => simp [Nat.pos_iff_ne_zero]

/-! ## All groups -/

theorem nodup_groups (g : Graph) : g.groups.Nodup := by
  have hfolders : g.groups.folders.Nodup := by
    rw [folders_groups]
    exact g.nodup_sharedFolders
  exact .of_map _ hfolders

theorem mem_recording {l : Link} {G : NodeGroup} :
    G ∈ g.groups.recording l ↔
      ∃ folder, g.Shared folder ∧ g.group folder = G ∧ l ∈ g.links ∧ g.Crosses folder l := by
  rw [Groups.recording, List.mem_filter, decide_eq_true_iff, mem_groups]
  constructor
  · rintro ⟨⟨folder, hshared, rfl⟩, hrecords⟩
    exact ⟨folder, hshared, rfl, recordsOf_group_ne_nil_iff.mp hrecords⟩
  · rintro ⟨folder, hshared, rfl, hcrosses⟩
    exact ⟨⟨folder, hshared, rfl⟩, recordsOf_group_ne_nil_iff.mpr hcrosses⟩

theorem Joins.unique {l : Link} {s t s' t' : Node} (h : g.Joins l s t) (h' : g.Joins l s' t') :
    s = s' ∧ t = t' := by
  rw [joins_iff] at h h'
  exact Prod.mk.inj (Option.some.inj (h.symm.trans h'))

/-- A link crosses the borders of the folders of its ends, if these differ. -/
theorem Joins.crosses_iff {l : Link} {s t : Node} (h : g.Joins l s t) {folder : String} :
    g.Crosses folder l ↔ s.folder ≠ t.folder ∧ (folder = s.folder ∨ folder = t.folder) := by
  constructor
  · rintro ⟨a, b, hjoins | hjoins, rfl, hb⟩
    · obtain ⟨rfl, rfl⟩ := h.unique hjoins
      exact ⟨hb.symm, .inl rfl⟩
    · obtain ⟨rfl, rfl⟩ := h.unique hjoins
      exact ⟨hb, .inr rfl⟩
  · rintro ⟨hne, rfl | rfl⟩
    · exact ⟨s, t, .inl h, rfl, hne.symm⟩
    · exact ⟨t, s, .inr h, rfl, hne⟩

theorem Joins.mem_recording {l : Link} {s t : Node} (h : g.Joins l s t) (hl : l ∈ g.links)
    (hne : s.folder ≠ t.folder) {G : NodeGroup} :
    G ∈ g.groups.recording l ↔
      (g.Shared s.folder ∧ G = g.group s.folder) ∨ (g.Shared t.folder ∧ G = g.group t.folder) := by
  rw [Graph.mem_recording]
  constructor
  · rintro ⟨folder, hshared, rfl, -, hcrosses⟩
    rcases (h.crosses_iff.mp hcrosses).2 with rfl | rfl
    · exact .inl ⟨hshared, rfl⟩
    · exact .inr ⟨hshared, rfl⟩
  · rintro (⟨hshared, rfl⟩ | ⟨hshared, rfl⟩)
    · exact ⟨s.folder, hshared, rfl, hl, h.crosses_iff.mpr ⟨hne, .inl rfl⟩⟩
    · exact ⟨t.folder, hshared, rfl, hl, h.crosses_iff.mpr ⟨hne, .inr rfl⟩⟩

theorem nodup_recording (l : Link) : (g.groups.recording l).Nodup := g.nodup_groups.filter _

/-- Between two groups a link is recorded by both. -/
theorem Joins.recording_perm {l : Link} {s t : Node} (h : g.Joins l s t) (hl : l ∈ g.links)
    (hs : g.Shared s.folder) (ht : g.Shared t.folder) (hne : s.folder ≠ t.folder) :
    (g.groups.recording l).Perm [g.group s.folder, g.group t.folder] := by
  have hnodup : [g.group s.folder, g.group t.folder].Nodup := by
    have hgroups : g.group s.folder ≠ g.group t.folder := fun heq => hne (congrArg (·.folder) heq)
    simpa using hgroups
  apply (List.perm_ext_iff_of_nodup (nodup_recording l) hnodup).mpr
  intro G
  rw [h.mem_recording hl hne]
  simp [hs, ht]

/-- Between a group and a node that is left over a link is recorded by the group alone. -/
theorem Meets.recording_eq {l : Link} {a b : Node} (h : g.Meets l a b) (hl : l ∈ g.links)
    (ha : g.Shared a.folder) (hb : ¬ g.Shared b.folder) :
    g.groups.recording l = [g.group a.folder] := by
  have hne : a.folder ≠ b.folder := fun heq => hb (heq ▸ ha)
  apply List.perm_singleton.mp
  apply (List.perm_ext_iff_of_nodup (nodup_recording l) (List.nodup_singleton _)).mpr
  intro G
  rcases h with hjoins | hjoins
  · rw [hjoins.mem_recording hl hne]
    simp [ha, hb]
  · rw [hjoins.mem_recording hl hne.symm]
    simp [ha, hb]

theorem recording_eq_nil {l : Link} (h : ∀ folder, g.Shared folder → ¬ g.Crosses folder l) :
    g.groups.recording l = [] := by
  apply List.eq_nil_iff_forall_not_mem.mpr
  intro G hG
  obtain ⟨folder, hshared, -, -, hcrosses⟩ := Graph.mem_recording.mp hG
  exact h folder hshared hcrosses

/-! ## The borders -/

/-- What the groups of a graph record of its links. A folder has a group exactly if two nodes share it. -/
structure Borders (g : Graph) (Gs : Groups) : Prop where
  /-- in the order of the links, a group has one crossing for each that has exactly one end inside -/
  crossings {G : NodeGroup} (hG : G ∈ Gs) :
    List.Forall₂ (fun l c => ∃ inside outside, g.Meets l inside outside ∧ inside.folder = G.folder ∧
        outside.folder ≠ G.folder ∧ c.Tells Gs l inside outside)
      (g.links.filter (g.Crosses G.folder)) G.crossings
  /-- two groups record a link between them, as often as the graph has it and with its ends exchanged -/
  between {l : Link} {s t : Node} (hl : l ∈ g.links) (h : g.Joins l s t) (hs : g.Shared s.folder)
    (ht : g.Shared t.folder) (hne : s.folder ≠ t.folder) :
    ∃ G H, (Gs.recording l).Perm [G, H] ∧ G.folder = s.folder ∧ H.folder = t.folder ∧
      G.recordsOf l = .replicate (g.links.count l) ⟨s.id, t.id, some t.folder, l⟩ ∧
      H.recordsOf l = .replicate (g.links.count l) ⟨t.id, s.id, some s.folder, l⟩
  /-- only the group records a link between it and a node that is left over -/
  leaving {l : Link} {a b : Node} (hl : l ∈ g.links) (h : g.Meets l a b) (ha : g.Shared a.folder)
    (hb : ¬ g.Shared b.folder) :
    ∃ G, Gs.recording l = [G] ∧ G.folder = a.folder ∧
      G.recordsOf l = .replicate (g.links.count l) ⟨a.id, b.id, none, l⟩
  /-- no group records a link inside a folder or between nodes that are left over -/
  apart {l : Link} {s t : Node} (h : g.Joins l s t)
    (hno : s.folder = t.folder ∨ ¬ g.Shared s.folder ∧ ¬ g.Shared t.folder) : Gs.recording l = []
  /-- no group records a link that leads nowhere -/
  dangling {l : Link} (h : ∀ s t, ¬ g.Joins l s t) : Gs.recording l = []

theorem borders_groups (g : Graph) : g.Borders g.groups where
  crossings := by
    intro G hG
    obtain ⟨folder, -, rfl⟩ := mem_groups.mp hG
    exact forall₂_crossings_group folder
  between := by
    intro l s t hl h hs ht hne
    refine ⟨g.group s.folder, g.group t.folder, h.recording_perm hl hs ht hne, rfl, rfl, ?_, ?_⟩
    · rw [recordsOf_group_of_meets (.inl h) hne, crossingFrom, if_pos (mem_sharedFolders.mpr ht)]
    · rw [recordsOf_group_of_meets (.inr h) hne.symm, crossingFrom, if_pos (mem_sharedFolders.mpr hs)]
  leaving := by
    intro l a b hl h ha hb
    refine ⟨g.group a.folder, h.recording_eq hl ha hb, rfl, ?_⟩
    have hne : a.folder ≠ b.folder := fun heq => hb (heq ▸ ha)
    rw [recordsOf_group_of_meets h hne, crossingFrom, if_neg (mt mem_sharedFolders.mp hb)]
  apart := by
    intro l s t h hno
    apply recording_eq_nil
    intro folder hshared hcrosses
    obtain ⟨hne, hfolder⟩ := h.crosses_iff.mp hcrosses
    obtain ⟨hs, ht⟩ := hno.resolve_left hne
    rcases hfolder with rfl | rfl
    · exact hs hshared
    · exact ht hshared
  dangling := by
    intro l h
    apply recording_eq_nil
    rintro folder - ⟨a, b, hjoins | hjoins, -, -⟩
    · exact h a b hjoins
    · exact h b a hjoins

end Graph

end ImportAtlas
