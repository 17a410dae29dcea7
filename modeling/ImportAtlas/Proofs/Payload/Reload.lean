-- SUMMARY: Printing a graph and reading it again gives the graph back, up to the depth that the reader allows.
import ImportAtlas.Proofs.Grouping.History
import ImportAtlas.Proofs.Payload.Reading
import ImportAtlas.Proofs.Payload.Written

/-! # Reloading

A printed graph is one document, and the schema decodes its tree to the graph that was printed, unless
a link stands for a chain of arrows that is too long: each arrow of the chain is one more bracket, and
the reader allows so many. What was read never has such a chain, and neither has the folded view, so
both can be printed and read again. -/

namespace ImportAtlas.Payload

open Json Json.Reader

variable {room : Nat}

-- ---------------------------------------------------------------------------
-- Decoding printed trees
-- ---------------------------------------------------------------------------

theorem text?_textTree (s : String) : (textTree s).text? = some s := text?_quotePieces s

theorem nullable?_textTree (s : String) : (textTree s).nullable? Tree.text? = some (some s) := by
  rw [textTree, Tree.nullable?, ← textTree, text?_textTree, Option.map_some]
  exact fun h => nomatch h

theorem named?_map_entry (fs : List (String × Tree)) : Tree.named? (fs.map entry) = some fs := by
  induction fs with
  | nil => rfl
  | cons f fs ih =>
    exact named?_cons_eq_some.mpr ⟨f.1, fs, text?_quotePieces f.1, ih, rfl⟩

/-- A printed object has the fields that were printed. -/
theorem fields?_fieldsTree {names : List String} {fs : List (String × Tree)}
    (h : (fs.map (·.1)).Nodup) : (fieldsTree fs).fields? names = some fs :=
  fields?_object_of_nodup (named?_map_entry fs) h

/-- A list of printed values decodes to the values, if each of them does. -/
theorem mapM_map_eq_some {α : Type} {d : Tree → Option α} {tree : α → Tree} {p : α → Prop}
    [DecidablePred p] (h : ∀ a, d (tree a) = if p a then some a else none) {as bs : List α} :
    (as.map tree).mapM d = some bs ↔ bs = as ∧ ∀ a ∈ as, p a := by
  induction as generalizing bs with
  | nil => simp [eq_comm]
  | cons a as ih =>
    rw [List.map_cons, mapM_cons_eq_some]
    simp only [h, ih, Option.ite_none_right_eq_some, Option.some.injEq, List.forall_mem_cons]
    constructor
    · rintro ⟨b, bs', ⟨ha, rfl⟩, ⟨rfl, has⟩, rfl⟩
      exact ⟨rfl, ha, has⟩
    · rintro ⟨rfl, ha, has⟩
      exact ⟨a, as, ⟨ha, rfl⟩, ⟨rfl, has⟩, rfl⟩

theorem mapM_textTree (as : List String) : (as.map textTree).mapM Tree.text? = some as :=
  (mapM_map_eq_some (p := fun _ => True) fun s => text?_textTree s).mpr ⟨rfl, fun _ _ => trivial⟩

theorem list?_textTree (as : List String) :
    (Tree.array (as.map textTree)).list? (room + 1) (fun _ => Tree.text?) = some as := mapM_textTree as

theorem kind?_textTree (k : NodeKind) : kind? room (textTree k.label) = some k := by
  rw [textTree, kind?, text?_quotePieces]
  exact NodeKind.ofLabel?_label k

theorem fields?_nodeTree (n : Node) : (nodeTree n).fields? nodeNames = some (nodeFields n) := by
  refine fields?_fieldsTree ?_
  obtain ⟨id, name, kind, fold⟩ := n
  cases fold with
  | none => exact (by decide : ["id", "name", "type"].Nodup)
  | some f => exact (by decide : nodeNames.Nodup)

theorem node?_nodeTree (n : Node) : node? (room + 2) (nodeTree n) = some n := by
  rw [node?, fields?_nodeTree, Option.bind_some]
  obtain ⟨id, name, kind, fold⟩ := n
  cases fold with
  | none => simp [nodeOf?, nodeFields, List.lookup_cons, text?_textTree, kind?_textTree]
  | some f =>
    simp [nodeOf?, nodeFields, foldFields, List.lookup_cons, text?_textTree, kind?_textTree, Tree.flag?,
      nullable?_textTree, list?_textTree]

theorem endpoint?_textTree (s : String) : endpoint? room (textTree s) = some s := by
  have hkeep : (textTree s).keep? (.strict room) = some (.string (s.toList.map .char)) := by
    refine Tree.keep?_string.mpr ⟨_, ?_, rfl⟩
    rw [Mode.string?, quotePieces, chars?_map_quotePiece, Option.map_some]
  rw [endpoint?, hkeep]
  change Piece.text? (s.toList.map .char) = some s
  rw [Piece.text?, chars?_map_char, Option.map_some, String.ofList_toList]

/-- The field for the arrow that an arrow stands for, if it stands for one. -/
def chainFields : List Arrow → List (String × Tree)
  | [] => []
  | b :: bs => [("originalLink", arrowTree b bs)]

theorem fields?_arrowTree (a : Arrow) (as : List Arrow) :
    (arrowTree a as).fields? linkNames = some (endFields a ++ chainFields as) := by
  cases as with
  | nil => exact fields?_fieldsTree (by decide : ["source", "target", "isGroupLink"].Nodup)
  | cons b bs => exact fields?_fieldsTree (by decide : linkNames.Nodup)

theorem nullable?_arrowTree {d : Tree → Option Link} (a : Arrow) (as : List Arrow) :
    (arrowTree a as).nullable? d = (d (arrowTree a as)).map some := by
  cases as <;> rfl

/-- Each arrow of a chain takes one more bracket. -/
theorem link?_arrowTree (a : Arrow) (as : List Arrow) :
    link? room (arrowTree a as) = if as.length < room then some ⟨a, as⟩ else none := by
  induction as generalizing room a with
  | nil =>
    cases room with
    | zero => rfl
    | succ room =>
      rw [link?, fields?_arrowTree]
      simp [linkOf?, endFields, chainFields, List.lookup_cons, endpoint?_textTree, Tree.flag?, arrowsOf]
  | cons b bs ih =>
    cases room with
    | zero => rfl
    | succ room =>
      rw [link?, fields?_arrowTree, Option.bind_some]
      by_cases hlt : bs.length < room
      · simp [linkOf?, endFields, chainFields, List.lookup_cons, endpoint?_textTree, Tree.flag?,
          nullable?_arrowTree, ih, hlt, arrowsOf]
      · simp [linkOf?, endFields, chainFields, List.lookup_cons, Tree.flag?, nullable?_arrowTree, ih, hlt]

theorem list?_nodeTree (ns : List Node) :
    (Tree.array (ns.map nodeTree)).list? (room + 3) node? = some ns :=
  (mapM_map_eq_some (p := fun _ => True) fun n => node?_nodeTree n).mpr ⟨rfl, fun _ _ => trivial⟩

theorem list?_linkTree {ls ls' : List Link} :
    (Tree.array (ls.map linkTree)).list? (room + 1) link? = some ls' ↔
      ls' = ls ∧ ∀ l ∈ ls, l.standsFor.length < room :=
  mapM_map_eq_some fun l => link?_arrowTree l.toArrow l.standsFor

theorem graph?_graphTree {g g' : Graph} : graph? (room + 4) (graphTree g) = some g' ↔
    g' = g ∧ ∀ l ∈ g.links, l.standsFor.length < room + 2 := by
  have hfields : (graphTree g).fields? graphNames = some [("nodes", .array (g.nodes.map nodeTree)),
      ("links", .array (g.links.map linkTree))] :=
    fields?_fieldsTree (by decide : graphNames.Nodup)
  have hgraph : graph? (room + 4) (graphTree g) =
      ((Tree.array (g.links.map linkTree)).list? (room + 3) link?).map fun ls => ⟨g.nodes, ls⟩ := by
    rw [graph?, hfields, Option.bind_some]
    cases hls : (Tree.array (g.links.map linkTree)).list? (room + 3) link? with
    | none => simp [graphOf?, List.lookup_cons, list?_nodeTree, hls]
    | some ls => simp [graphOf?, List.lookup_cons, list?_nodeTree, hls]
  rw [hgraph, Option.map_eq_some_iff]
  simp only [list?_linkTree]
  constructor
  · rintro ⟨ls, ⟨rfl, hls⟩, rfl⟩
    exact ⟨rfl, hls⟩
  · rintro ⟨rfl, hls⟩
    exact ⟨_, ⟨rfl, hls⟩, rfl⟩

-- ---------------------------------------------------------------------------
-- Chains of what was read
-- ---------------------------------------------------------------------------

theorem length_standsFor_of_link? {t : Tree} {l : Link} (h : link? room t = some l) :
    l.standsFor.length < room := by
  induction room generalizing t l with
  | zero => cases h
  | succ room ih =>
    rw [link?] at h
    simp only [linkOf?, Option.bind_eq_bind, Option.bind_eq_some_iff, Option.pure_def,
      Option.some.injEq] at h
    obtain ⟨fs, _, _, _, source, _, _, _, target, _, grouped, _, stoodFor, hstoodFor, rfl⟩ := h
    rcases stoodFor with _ | ⟨_ | l⟩
    · exact Nat.succ_pos room
    · exact Nat.succ_pos room
    · obtain ⟨x, -, hx⟩ := mapM_eq_some_some.mp hstoodFor
      exact Nat.succ_lt_succ (ih (Tree.of_nullable?_eq_some hx))

theorem exists_of_mem_mapM {α : Type} {d : Tree → Option α} {ts : List Tree} {as : List α} {a : α}
    (h : ts.mapM d = some as) (ha : a ∈ as) : ∃ t, d t = some a := by
  induction ts generalizing as with
  | nil =>
    cases h
    cases ha
  | cons t ts ih =>
    obtain ⟨b, bs, hb, hbs, rfl⟩ := mapM_cons_eq_some.mp h
    rcases List.mem_cons.mp ha with rfl | ha
    · exact ⟨t, hb⟩
    · exact ih hbs ha

theorem exists_of_mem_list? {α : Type} {d : Nat → Tree → Option α} {t : Tree} {as : List α} {a : α}
    (h : t.list? (room + 1) d = some as) (ha : a ∈ as) : ∃ x, d room x = some a := by
  cases t with
  | array ts => exact exists_of_mem_mapM h ha
  | null | bool | number | string | object => cases h

theorem length_standsFor_of_graph? {t : Tree} {g : Graph} (h : graph? (room + 2) t = some g) {l : Link}
    (hl : l ∈ g.links) : l.standsFor.length < room := by
  rw [graph?] at h
  simp only [graphOf?, Option.bind_eq_bind, Option.bind_eq_some_iff, Option.pure_def,
    Option.some.injEq] at h
  obtain ⟨fs, _, nodes, _, links, hlinks, rfl⟩ := h
  cases links with
  | none => cases hl
  | some ls =>
    obtain ⟨x, -, hx⟩ := mapM_eq_some_some.mp hlinks
    obtain ⟨y, hy⟩ := exists_of_mem_list? hx hl
    exact length_standsFor_of_link? hy

/-- In the folded view a link stands for one arrow at most. -/
theorem length_standsFor_start {g : Graph} {l : Link} (hl : l ∈ (Grouping.start g).2.links) :
    l.standsFor.length ≤ 1 := by
  rw [Grouping.start_eq] at hl
  rcases List.mem_append.mp hl with hl | hl
  · obtain ⟨k, -, hk⟩ := List.mem_filterMap.mp hl
    split at hk
    · cases hk
      exact Nat.zero_le 1
    · cases hk
  · obtain ⟨p, -, hp⟩ := List.mem_filterMap.mp hl
    obtain ⟨-, hstand⟩ := Option.ite_none_right_eq_some.mp hp
    cases hstand
    exact Nat.le_refl 1

-- ---------------------------------------------------------------------------
-- Reading what was printed
-- ---------------------------------------------------------------------------

theorem read_print_eq_ok_iff {g g' : Graph} : read (print g) = .ok g' ↔
    g' = g ∧ ∀ l ∈ g.links, l.standsFor.length ≤ 124 := by
  rw [read_eq_ok_iff]
  constructor
  · rintro ⟨t, ht, hg'⟩
    obtain rfl := document_unique (document_print g) ht
    obtain ⟨rfl, hlinks⟩ := graph?_graphTree.mp hg'
    exact ⟨rfl, fun l hl => Nat.le_of_lt_succ (hlinks l hl)⟩
  · rintro ⟨rfl, hlinks⟩
    exact ⟨graphTree g', document_print g',
      graph?_graphTree.mpr ⟨rfl, fun l hl => Nat.lt_succ_of_le (hlinks l hl)⟩⟩

theorem length_standsFor_of_read {raw : String} {g : Graph} (h : read raw = .ok g) :
    ∀ l ∈ g.links, l.standsFor.length ≤ 124 := by
  intro l hl
  obtain ⟨t, -, ht⟩ := (read_eq_ok_iff raw g).mp h
  exact Nat.le_of_lt_succ (length_standsFor_of_graph? ht hl)

/-- A printed graph is read back as it was, exactly if no link stands for more than 124 arrows, and is
a problem otherwise. So what was read can be printed and read again, and its folded view too. -/
theorem parse_print :
    (∀ g : Graph, (parse (print g)).value = .ok g ↔ ∀ l ∈ g.links, l.standsFor.length ≤ 124) ∧
    (∀ g : Graph, ∀ l ∈ g.links, 124 < l.standsFor.length →
      ∃ p, (parse (print g)).value = .error p) ∧
    (∀ (raw : String) (g : Graph), (parse raw).value = .ok g →
      (parse (print g)).value = .ok g ∧
      (parse (print (Grouping.start g).2)).value = .ok (Grouping.start g).2) := by
  simp only [value_parse]
  refine ⟨fun g => ?_, fun g l hl hlong => ?_, fun raw g hread => ⟨?_, ?_⟩⟩
  · rw [read_print_eq_ok_iff, and_iff_right rfl]
  · cases hread : read (print g) with
    | error p => exact ⟨p, rfl⟩
    | ok g' =>
      have hshort := (read_print_eq_ok_iff.mp hread).2 l hl
      exact absurd hshort (Nat.not_le.mpr hlong)
  · exact read_print_eq_ok_iff.mpr ⟨rfl, length_standsFor_of_read hread⟩
  · refine read_print_eq_ok_iff.mpr ⟨rfl, fun l hl => ?_⟩
    exact Nat.le_trans (length_standsFor_start hl) (by decide)

/-- A graph with one link, which stands for `n` arrows. -/
def chained (n : Nat) : Graph :=
  { nodes := [{ id := "a", name := "a", kind := .root }]
    links := [{ source := "a", target := "a", grouped := true
                standsFor := List.replicate n { source := "a", target := "a", grouped := true } }] }

theorem parse_print_chained :
    (parse (print (chained 124))).value = .ok (chained 124) ∧
    (∃ p, (parse (print (chained 125))).value = .error p) ∧
    (∃ g, (parse "[[[\"p/a\", \"a\", \"local\"], [\"p/b\", \"b\", \"local\"]]]").value = .ok g ∧
      (parse (print g)).value = .ok g ∧
      (parse (print (Grouping.start g).2)).value = .ok (Grouping.start g).2) := by
  refine ⟨(parse_print.1 (chained 124)).mpr (by simp [chained]), ?_, ?_⟩
  · exact parse_print.2.1 (chained 125) _ (.head _) (by simp)
  · have hread : (parse "[[[\"p/a\", \"a\", \"local\"], [\"p/b\", \"b\", \"local\"]]]").value =
        .ok { nodes := [{ id := "p/a", name := "a", kind := .project },
                        { id := "p/b", name := "b", kind := .project }]
              links := [] } := by
      decide +kernel
    exact ⟨_, hread, parse_print.2.2 _ _ hread⟩

end ImportAtlas.Payload
