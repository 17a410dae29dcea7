-- SUMMARY: The one-pass reader of payloads accepts exactly the documents that the schema decodes.
import ImportAtlas.Proofs.Json.Records
import ImportAtlas.Proofs.Payload.Schema
import Mathlib.Data.Option.Basic

/-! # Reading payloads

The reader goes through the text once, dispatches on field names as they come and stops at the first
problem. Reading the document into a tree and decoding the tree afterwards gives the same graphs: for
every text, the reader returns a graph exactly if the text is one document and its tree decodes to that
graph. -/

namespace ImportAtlas.Payload

open Json Json.Reader

variable {α β σ : Type} {room : Nat}

-- ---------------------------------------------------------------------------
-- Kinds of nodes
-- ---------------------------------------------------------------------------

theorem yields_variant {s r : List Char} {k : NodeKind} : Yields variant s k r ↔
    ∃ t, Reads s t r ∧ t.text?.bind NodeKind.ofLabel? = some k := by
  rw [variant, yields_bind]
  constructor
  · rintro ⟨word, s₁, hword, h⟩
    obtain ⟨t, ht, htext⟩ := refines_text.mp hword
    cases hlabel : NodeKind.ofLabel? word with
    | none =>
      rw [hlabel] at h
      exact absurd h not_yields_fail
    | some k' =>
      rw [hlabel] at h
      obtain ⟨rfl, rfl⟩ := yields_pure.mp h
      refine ⟨t, ht, ?_⟩
      rw [htext]
      exact hlabel
  · rintro ⟨t, ht, hk⟩
    obtain ⟨word, htext, hlabel⟩ := Option.bind_eq_some_iff.mp hk
    refine ⟨word, r, refines_text.mpr ⟨t, ht, htext⟩, ?_⟩
    rw [hlabel]
    exact yields_pure.mpr ⟨rfl, rfl⟩

theorem yields_variantKey {s r : List Char} {k : NodeKind} : Yields variantKey s k r ↔
    ∃ s₁ ps, dropBlanks s = '"' :: s₁ ∧ Pieces s₁ ps ('"' :: r) ∧
      (Piece.text? ps).bind NodeKind.ofLabel? = some k := by
  rw [variantKey, yields_token_bind]
  cases hs : dropBlanks s with
  | nil => simp
  | cons c s' =>
    rw [List.head?_cons]
    split
    · next h => cases h
    · next h =>
      cases h
      simp only [yields_variant, reads_string (dropBlanks_cons rfl)]
      constructor
      · rintro ⟨t, ⟨ps, rfl, hps⟩, hk⟩
        exact ⟨s', ps, rfl, hps, hk⟩
      · rintro ⟨s₁, ps, h, hps, hk⟩
        cases h
        exact ⟨.string ps, ⟨ps, rfl, hps⟩, hk⟩
    · next h =>
      cases h
      simp
    · next hquote _ h =>
      cases h
      constructor
      · intro h
        exact absurd h not_yields_refuse
      · rintro ⟨s₁, ps, h, -⟩
        cases h
        exact (hquote rfl).elim

theorem spells_single {s r : List Char} {k : List Piece} {x : Tree} :
    Spells ('{' :: s) (.value (.object [(k, x)])) r ↔
      ∃ s₁ s₂, Keyed s k s₁ ∧ Reads s₁ x s₂ ∧ dropBlanks s₂ = '}' :: r := by
  rw [spells_object_iff]
  constructor
  · rintro (⟨h, -⟩ | ⟨k', x', es, s₁, s₂, h, hk, hx, hes⟩)
    · cases h
    · cases h
      cases hes with
      | close hs₂ => exact ⟨s₁, s₂, hk, hx, hs₂⟩
  · rintro ⟨s₁, s₂, hk, hx, hs₂⟩
    exact .inr ⟨k, x, [], s₁, s₂, rfl, hk, hx, .close hs₂⟩

theorem yields_kindEnd {s r : List Char} {k k' : NodeKind} : Yields (do
      match ← token with
      | none => fail .endInObject
      | some '}' => do
        advance
        return k
      | some _ => fail .expectedValue) s k' r ↔ k = k' ∧ dropBlanks s = '}' :: r := by
  rw [yields_token_bind]
  cases hs : dropBlanks s with
  | nil => simp
  | cons c s' =>
    rw [List.head?_cons]
    split
    · next h => cases h
    · next h =>
      cases h
      simp
    · next hc h =>
      cases h
      constructor
      · intro h
        exact absurd h not_yields_fail
      · rintro ⟨-, h⟩
        cases h
        exact (hc rfl).elim

theorem exists_of_kind?_object {es : List (List Piece × Tree)} {k : NodeKind}
    (h : kind? (room + 1) (.object es) = some k) :
    ∃ ps, es = [(ps, .null)] ∧ (Piece.text? ps).bind NodeKind.ofLabel? = some k := by
  unfold kind? at h
  split at h
  · next he => cases he
  · next ps he =>
    cases he
    exact ⟨ps, rfl, h⟩
  · cases h

theorem refines_kind : Refines (kind room) (kind? room) := by
  intro s k r
  rw [kind, yields_token_bind]
  cases hs : dropBlanks s with
  | nil => simp [not_reads_of_dropBlanks_nil hs]
  | cons c s' =>
    rw [List.head?_cons]
    split
    · next h => cases h
    · next h =>
      cases h
      simp only [reads_object hs]
      cases room with
      | zero =>
        constructor
        · intro h
          exact absurd h not_yields_refuse
        · rintro ⟨t, ⟨es, rfl, -⟩, hk⟩
          unfold kind? at hk
          split at hk
          · next h => cases h
          · cases hk
          · cases hk
      | succ room =>
        constructor
        · intro h
          obtain ⟨_, s₁, hs₁, h⟩ := yields_bind.mp h
          obtain rfl := yields_advance.mp hs₁
          obtain ⟨k', s₂, hkey, h⟩ := yields_bind.mp h
          obtain ⟨_, s₃, hcolon, h⟩ := yields_bind.mp h
          obtain ⟨_, s₄, hnull, h⟩ := yields_bind.mp h
          obtain ⟨rfl, hs₄⟩ := yields_kindEnd.mp h
          obtain ⟨s₅, ps, hs₅, hps, hk⟩ := yields_variantKey.mp hkey
          obtain ⟨t, ht, hunit⟩ := refines_null.mp hnull
          obtain rfl := Tree.eq_null_of_unit? hunit
          have hspell := spells_single.mpr ⟨s₃, s₄, ⟨s₅, s₂, hs₅, hps, yields_colon.mp hcolon⟩, ht, hs₄⟩
          exact ⟨_, ⟨_, rfl, hspell⟩, hk⟩
        · rintro ⟨t, ⟨es, rfl, hes⟩, hk⟩
          obtain ⟨ps, rfl, hk⟩ := exists_of_kind?_object hk
          obtain ⟨s₃, s₄, ⟨s₅, s₂, hs₅, hps, hcolon⟩, ht, hs₄⟩ := spells_single.mp hes
          refine yields_bind.mpr ⟨(), s', yields_advance.mpr rfl, ?_⟩
          refine yields_bind.mpr ⟨k, s₂, yields_variantKey.mpr ⟨s₅, ps, hs₅, hps, hk⟩, ?_⟩
          refine yields_bind.mpr ⟨(), s₃, yields_colon.mpr hcolon, ?_⟩
          refine yields_bind.mpr ⟨(), s₄, refines_null.mpr ⟨.null, ht, rfl⟩, ?_⟩
          exact yields_kindEnd.mpr ⟨rfl, hs₄⟩
    · next h =>
      cases h
      rw [← hs, yields_variant]
      simp only [reads_dropBlanks, reads_string hs]
      constructor
      · rintro ⟨t, ⟨ps, rfl, hps⟩, hk⟩
        exact ⟨.string ps, ⟨ps, rfl, hps⟩, hk⟩
      · rintro ⟨t, ⟨ps, rfl, hps⟩, hk⟩
        exact ⟨.string ps, ⟨ps, rfl, hps⟩, hk⟩
    · next hbrace hquote h =>
      cases h
      constructor
      · intro h
        exact absurd h not_yields_refuse
      · rintro ⟨t, ht, hk⟩
        cases t with
        | string ps => exact (hquote (ht.begins_with hs)).elim
        | object es => exact (hbrace (ht.begins_with hs)).elim
        | null | bool | number | array => cases hk

-- ---------------------------------------------------------------------------
-- The ends of links
-- ---------------------------------------------------------------------------

theorem valuesAt_eq_of_named? {name : String} {es : List (List Piece × Tree)}
    {fs : List (String × Tree)} (h : Tree.named? es = some fs) :
    valuesAt name es = (fs.filter (·.1 == name)).map (·.2) := by
  induction es generalizing fs with
  | nil =>
    cases h
    rfl
  | cons e es ih =>
    obtain ⟨n, fs, hn, hfs, rfl⟩ := named?_cons_eq_some.mp h
    have ih := ih hfs
    by_cases hname : n = name
    · subst hname
      simp only [valuesAt, List.filterMap_cons, hn, if_true] at ih ⊢
      rw [ih]
      simp
    · simp only [valuesAt, List.filterMap_cons, hn, Option.some.injEq, if_neg hname] at ih ⊢
      rw [ih]
      simp [hname]

theorem lookup_eq_head? (name : String) (fs : List (String × Tree)) :
    fs.lookup name = ((fs.filter (·.1 == name)).map (·.2)).head? := by
  induction fs with
  | nil => rfl
  | cons f fs ih =>
    obtain ⟨n, x⟩ := f
    by_cases hname : n = name
    · subst hname
      simp
    · have hne : (name == n) = false := by simpa using fun h => hname h.symm
      rw [List.lookup_cons, hne, ih, List.filter_cons_of_neg (by simpa using hname)]

theorem chars?_map_char (cs : List Char) : Piece.chars? (cs.map .char) = some cs := by
  induction cs with
  | nil => rfl
  | cons c cs ih => rw [List.map_cons, chars?_char, ih, Option.map_some]

theorem exists_named?_of_kept {es₀ es : List (List Piece × Tree)}
    (h : Tree.keepEntries? (.strict room) es₀ = some es) : ∃ fs, Tree.named? es = some fs := by
  induction es₀ generalizing es with
  | nil =>
    cases h
    exact ⟨[], rfl⟩
  | cons e es₀ ih =>
    obtain ⟨k, x, es, hk, -, hes, rfl⟩ := Tree.keepEntries?_cons.mp h
    obtain ⟨fs, hfs⟩ := ih hes
    obtain ⟨cs, -, rfl⟩ := Option.map_eq_some_iff.mp hk
    refine ⟨(String.ofList cs, x) :: fs, named?_cons_eq_some.mpr ⟨_, fs, ?_, hfs, rfl⟩⟩
    rw [Piece.text?, chars?_map_char, Option.map_some]

/-- The entry that the reader looks for is the one field of the schema. -/
theorem endpointOf?_object {es : List (List Piece × Tree)} {fs : List (String × Tree)}
    (h : Tree.named? es = some fs) : endpointOf? (.object es) =
      ((Tree.fields? ["id"] (.object es)).bind (·.lookup "id")).bind Tree.text? := by
  have hfields : Tree.fields? ["id"] (.object es) =
      if (valuesAt "id" es).length ≤ 1 then some fs else none := by
    rw [valuesAt_eq_of_named? h, List.length_map, ← List.countP_eq_length_filter, Tree.fields?, h]
    simp
  rw [hfields, endpointOf?]
  have hlookup := lookup_eq_head? "id" fs
  rw [← valuesAt_eq_of_named? h] at hlookup
  rcases hv : valuesAt "id" es with _ | ⟨x, _ | ⟨y, ys⟩⟩
  · rw [hv] at hlookup
    simp [hlookup]
  · rw [hv] at hlookup
    cases x <;> simp [hlookup, Tree.text?]
  · simp

theorem exists_named?_of_keep? {t : Tree} {es : List (List Piece × Tree)}
    (h : t.keep? (.strict room) = some (.object es)) : ∃ fs, Tree.named? es = some fs := by
  cases t with
  | object es₀ =>
    obtain ⟨m', es', hm, hes, he⟩ := Tree.keep?_object.mp h
    cases he
    cases room with
    | zero => cases hm
    | succ room =>
      cases hm
      exact exists_named?_of_kept hes
  | array xs =>
    obtain ⟨_, _, _, _, he⟩ := Tree.keep?_array.mp h
    cases he
  | string ps =>
    obtain ⟨_, _, he⟩ := Tree.keep?_string.mp h
    cases he
  | number n => cases (Tree.keep?_number.mp h).2
  | null | bool => cases h

theorem endpoint?_eq (t : Tree) :
    endpoint? room t = (t.keep? (.strict room)).bind endpointOf? := by
  rw [endpoint?]
  cases hkeep : t.keep? (.strict room) with
  | none => rfl
  | some t' =>
    cases t' with
    | object es =>
      obtain ⟨fs, hfs⟩ := exists_named?_of_keep? hkeep
      rw [Option.bind_some, endpointOf?_object hfs, Option.bind_assoc]
      rfl
    | null | bool | number | string | array => rfl

theorem refines_endpoint : Refines (endpoint room) (endpoint? room) := by
  intro s id r
  have hopen : Yields (endpoint room) s id r ↔
      ∃ t', Yields (tree (.strict room)) s t' r ∧ endpointOf? t' = some id := by
    refine yields_bind.trans ?_
    constructor
    · rintro ⟨t', s₁, ht', h⟩
      cases hid : endpointOf? t' with
      | none =>
        rw [hid] at h
        exact absurd h not_yields_fail
      | some id' =>
        rw [hid] at h
        obtain ⟨rfl, rfl⟩ := yields_pure.mp h
        exact ⟨t', ht', hid⟩
    · rintro ⟨t', ht', hid⟩
      refine ⟨t', r, ht', ?_⟩
      rw [hid]
      exact yields_pure.mpr ⟨rfl, rfl⟩
  simp only [hopen, yields_tree, endpoint?_eq, Option.bind_eq_some_iff]
  constructor
  · rintro ⟨t', ⟨t, ht, hkeep⟩, hid⟩
    exact ⟨t, ht, t', hkeep, hid⟩
  · rintro ⟨t, ht, t', hkeep, hid⟩
    exact ⟨t', ⟨t, ht, hkeep⟩, hid⟩

-- ---------------------------------------------------------------------------
-- Nodes
-- ---------------------------------------------------------------------------

def nodeCells? (room : Nat) : List Tree → Option Node :=
  need? Tree.text? fun id => need? Tree.text? fun name => need? (kind? room) fun kind =>
    cell? Tree.flag? fun isGroup => cell? Tree.flag? fun expanded =>
      cell? (Tree.nullable? Tree.text?) fun folder =>
        cell? (Tree.list? room fun _ => Tree.text?) fun members =>
          noMore? ({ isGroup, expanded, folder, members : NodeFields }.toNode id name kind)

theorem refinesCells_nodeCells : RefinesCells (nodeCells room) (nodeCells? room) :=
  refinesCells_need refines_text fun _ => refinesRest_need refines_text fun _ =>
    refinesRest_need refines_kind fun _ => refinesRest_nextCell refines_flag fun _ =>
      refinesRest_nextCell refines_flag fun _ =>
        refinesRest_nextCell (refines_nullable refines_text) fun _ =>
          refinesRest_nextCell (refines_list fun _ => refines_text) fun _ => refinesRest_pure

theorem toNode_eq (f : NodeFields) (id name : String) (kind : NodeKind) : f.toNode id name kind =
    { id, name, kind, fold := if f.isGroup = some true then
        some { expanded := f.expanded.getD false, folder := f.folder.join.getD ""
               members := f.members.getD [] } else none } := by
  obtain ⟨_, _, _, isGroup, expanded, folder, members⟩ := f
  rcases isGroup with _ | ⟨⟨⟩⟩ <;> rcases folder with _ | ⟨_ | folder⟩ <;> rfl

/-- Cells are fields by their place. -/
theorem nodeCells?_eq (ts : List Tree) :
    nodeCells? room ts = (Tree.fields? nodeNames (.array ts)).bind (nodeOf? room) := by
  rcases ts with _ | ⟨t₁, _ | ⟨t₂, _ | ⟨t₃, _ | ⟨t₄, _ | ⟨t₅, _ | ⟨t₆, _ | ⟨t₇, _ | ⟨t₈, ts⟩⟩⟩⟩⟩⟩⟩⟩
  iterate 8
    simp [nodeCells?, toNode_eq, need?, cell?, noMore?, Tree.fields?, nodeNames, nodeOf?, List.lookup_cons,
      Option.bind_map]
  have hlong : nodeNames.length < (t₁ :: t₂ :: t₃ :: t₄ :: t₅ :: t₆ :: t₇ :: t₈ :: ts).length :=
    Nat.le_add_left 8 ts.length
  rw [fields?_array_of_lt hlong]
  simp [nodeCells?, need?, cell?, noMore?]

/-- What one entry does to a node in the making. -/
def nodeStep (room : Nat) (f : NodeFields) (name : String) (x : Tree) : Option NodeFields :=
  match name with
  | "id" => fill f.id Tree.text? (fun a => { f with id := some a }) x
  | "name" => fill f.name Tree.text? (fun a => { f with name := some a }) x
  | "type" => fill f.kind (kind? room) (fun a => { f with kind := some a }) x
  | "isGroup" => fill f.isGroup Tree.flag? (fun a => { f with isGroup := some a }) x
  | "expandedState" => fill f.expanded Tree.flag? (fun a => { f with expanded := some a }) x
  | "prefix" => fill f.folder (Tree.nullable? Tree.text?) (fun a => { f with folder := some a }) x
  | "members" =>
    fill f.members (Tree.list? room fun _ => Tree.text?) (fun a => { f with members := some a }) x
  | _ => some f

theorem nodeStep_other {f : NodeFields} {name : String} (h : name ∉ nodeNames) :
    nodeStep room f name = fun _ => some f := by
  funext x
  unfold nodeStep
  split
  iterate 7 exact absurd (by decide) h
  rfl

theorem refinesEntry_nodeEntry : RefinesEntry (nodeEntry room) (byName (nodeStep room)) := by
  apply refinesEntry_key (fun _ => rfl)
  intro f name
  split
  · exact refinesValue_once refines_text
  · exact refinesValue_once refines_text
  · exact refinesValue_once refines_kind
  · exact refinesValue_once refines_flag
  · exact refinesValue_once refines_flag
  · exact refinesValue_once (refines_nullable refines_text)
  · exact refinesValue_once (refines_list fun _ => refines_text)
  · rw [nodeStep_other]
    · exact refinesValue_unknown
    · simp_all [nodeNames]

/-- The fields of a node. -/
def nodeTable (room : Nat) : FieldTable NodeFields where
  names := nodeNames
  Each p f g :=
    p "id" Tree.text? f.id g.id ∧ p "name" Tree.text? f.name g.name ∧
    p "type" (kind? room) f.kind g.kind ∧ p "isGroup" Tree.flag? f.isGroup g.isGroup ∧
    p "expandedState" Tree.flag? f.expanded g.expanded ∧
    p "prefix" (Tree.nullable? Tree.text?) f.folder g.folder ∧
    p "members" (Tree.list? room fun _ => Tree.text?) f.members g.members
  imp h := by
    rintro ⟨h₁, h₂, h₃, h₄, h₅, h₆, h₇⟩
    exact ⟨h _ _ _ _ h₁, h _ _ _ _ h₂, h _ _ _ _ h₃, h _ _ _ _ h₄, h _ _ _ _ h₅, h _ _ _ _ h₆,
      h _ _ _ _ h₇⟩
  and := by
    rintro p q f g ⟨h₁, h₂, h₃, h₄, h₅, h₆, h₇⟩ ⟨k₁, k₂, k₃, k₄, k₅, k₆, k₇⟩
    exact ⟨⟨h₁, k₁⟩, ⟨h₂, k₂⟩, ⟨h₃, k₃⟩, ⟨h₄, k₄⟩, ⟨h₅, k₅⟩, ⟨h₆, k₆⟩, ⟨h₇, k₇⟩⟩
  comp := by
    intro p q f g
    constructor
    · rintro ⟨⟨a₁, h₁, k₁⟩, ⟨a₂, h₂, k₂⟩, ⟨a₃, h₃, k₃⟩, ⟨a₄, h₄, k₄⟩, ⟨a₅, h₅, k₅⟩, ⟨a₆, h₆, k₆⟩,
        ⟨a₇, h₇, k₇⟩⟩
      exact ⟨⟨a₁, a₂, a₃, a₄, a₅, a₆, a₇⟩, ⟨h₁, h₂, h₃, h₄, h₅, h₆, h₇⟩, k₁, k₂, k₃, k₄, k₅, k₆, k₇⟩
    · rintro ⟨f', ⟨h₁, h₂, h₃, h₄, h₅, h₆, h₇⟩, k₁, k₂, k₃, k₄, k₅, k₆, k₇⟩
      exact ⟨⟨_, h₁, k₁⟩, ⟨_, h₂, k₂⟩, ⟨_, h₃, k₃⟩, ⟨_, h₄, k₄⟩, ⟨_, h₅, k₅⟩, ⟨_, h₆, k₆⟩, ⟨_, h₇, k₇⟩⟩
  eq := by
    rintro ⟨_, _, _, _, _, _, _⟩ ⟨_, _, _, _, _, _, _⟩
    simp
  named := by
    intro P f g
    simp [nodeNames]

/-- An entry of a node does to each field what it would do to the field alone. -/
theorem nodeStep_eq_some {f g : NodeFields} {name : String} {x : Tree} :
    nodeStep room f name x = some g ↔
      (nodeTable room).Each (fun n d a b => slotStep n d a (name, x) = some b) f g := by
  obtain ⟨id, nodeName, kind, isGroup, expanded, folder, members⟩ := f
  obtain ⟨id', nodeName', kind', isGroup', expanded', folder', members'⟩ := g
  by_cases hname : name ∈ nodeNames
  · simp only [nodeNames, List.mem_cons, List.not_mem_nil, or_false] at hname
    rcases hname with rfl | rfl | rfl | rfl | rfl | rfl | rfl
    · cases id <;> cases hx : x.text? <;> simp [nodeTable, nodeStep, slotStep, fill, hx]
    · cases nodeName <;> cases hx : x.text? <;> simp [nodeTable, nodeStep, slotStep, fill, hx]
    · cases kind <;> cases hx : kind? room x <;> simp [nodeTable, nodeStep, slotStep, fill, hx]
    · cases isGroup <;> cases hx : x.flag? <;> simp [nodeTable, nodeStep, slotStep, fill, hx]
    · cases expanded <;> cases hx : x.flag? <;> simp [nodeTable, nodeStep, slotStep, fill, hx]
    · cases folder <;> cases hx : x.nullable? Tree.text? <;>
        simp [nodeTable, nodeStep, slotStep, fill, hx]
    · cases members <;> cases hx : x.list? room fun _ => Tree.text? <;>
        simp [nodeTable, nodeStep, slotStep, fill, hx]
  · rw [nodeStep_other hname]
    simp only [nodeNames, List.mem_cons, List.not_mem_nil, or_false, not_or] at hname
    simp [nodeTable, slotStep, hname]

/-- A node, once its required fields are there. -/
def NodeFields.toNode? (f : NodeFields) : Option Node := do
  let id ← f.id
  let name ← f.name
  let kind ← f.kind
  return f.toNode id name kind

theorem yields_toNode? (f : NodeFields) (s : List Char) (n : Node) (q : List Char) :
    Yields (do
      let id ← present "id" f.id
      let name ← present "name" f.name
      let k ← present "type" f.kind
      return f.toNode id name k) s n q ↔ f.toNode? = some n ∧ s = q := by
  simp only [yields_present_bind, yields_pure, NodeFields.toNode?, Option.bind_eq_bind,
    Option.bind_eq_some_iff, Option.pure_def, Option.some.injEq]
  constructor
  · rintro ⟨id, hid, name, hname, kind, hkind, hn, hq⟩
    exact ⟨⟨id, hid, name, hname, kind, hkind, hn⟩, hq⟩
  · rintro ⟨⟨id, hid, name, hname, kind, hkind, hn⟩, hq⟩
    exact ⟨id, hid, name, hname, kind, hkind, hn, hq⟩

theorem nodeOf?_eq_some {fs : List (String × Tree)} {n : Node} : nodeOf? room fs = some n ↔
    ∃ f, (nodeTable room).Each (fun name d _ b => (fs.lookup name).mapM d = some b) {} f ∧
      f.toNode? = some n := by
  simp only [nodeOf?, nodeTable, NodeFields.toNode?, toNode_eq, Option.bind_eq_bind,
    Option.bind_eq_some_iff, Option.pure_def, Option.some.injEq]
  constructor
  · rintro ⟨x₁, hx₁, id, hid, x₂, hx₂, name, hname, x₃, hx₃, kind, hkind, isGroup, hisGroup, expanded,
      hexpanded, folder, hfolder, members, hmembers, hn⟩
    refine ⟨⟨some id, some name, some kind, isGroup, expanded, folder, members⟩, ⟨?_, ?_, ?_, hisGroup,
      hexpanded, hfolder, hmembers⟩, id, rfl, name, rfl, kind, rfl, hn⟩
    · exact mapM_eq_some_some.mpr ⟨x₁, hx₁, hid⟩
    · exact mapM_eq_some_some.mpr ⟨x₂, hx₂, hname⟩
    · exact mapM_eq_some_some.mpr ⟨x₃, hx₃, hkind⟩
  · rintro ⟨⟨_, _, _, isGroup, expanded, folder, members⟩, ⟨hid, hname, hkind, hisGroup, hexpanded,
      hfolder, hmembers⟩, id, rfl, name, rfl, kind, rfl, hn⟩
    obtain ⟨x₁, hx₁, hid⟩ := mapM_eq_some_some.mp hid
    obtain ⟨x₂, hx₂, hname⟩ := mapM_eq_some_some.mp hname
    obtain ⟨x₃, hx₃, hkind⟩ := mapM_eq_some_some.mp hkind
    exact ⟨x₁, hx₁, id, hid, x₂, hx₂, name, hname, x₃, hx₃, kind, hkind, isGroup, hisGroup, expanded,
      hexpanded, folder, hfolder, members, hmembers, hn⟩

theorem refines_node : Refines (node room) (node? room) := by
  cases room with
  | zero => exact refines_record_none
  | succ room =>
    exact refines_fields (T := nodeTable room) refinesCells_nodeCells nodeCells?_eq
      refinesEntry_nodeEntry yields_toNode? nodeStep_eq_some
      ⟨rfl, rfl, rfl, rfl, rfl, rfl, rfl⟩ nodeOf?_eq_some

-- ---------------------------------------------------------------------------
-- Links
-- ---------------------------------------------------------------------------

section Links

variable {inner : Reader Link} {inner? : Tree → Option Link}

def linkCells? (room : Nat) (inner? : Tree → Option Link) : List Tree → Option Link :=
  need? (endpoint? room) fun source => need? (endpoint? room) fun target =>
    cell? Tree.flag? fun grouped => cell? (Tree.nullable? inner?) fun stoodFor =>
      noMore? ({ grouped, stoodFor : LinkFields }.toLink source target)

theorem refinesCells_linkCells (hinner : Refines inner inner?) :
    RefinesCells (linkCells room inner) (linkCells? room inner?) :=
  refinesCells_need refines_endpoint fun _ => refinesRest_need refines_endpoint fun _ =>
    refinesRest_nextCell refines_flag fun _ =>
      refinesRest_nextCell (refines_nullable hinner) fun _ => refinesRest_pure

theorem toLink_eq (f : LinkFields) (source target : String) : f.toLink source target =
    { source, target, grouped := f.grouped.getD false, standsFor := arrowsOf f.stoodFor.join } := by
  obtain ⟨_, _, grouped, stoodFor⟩ := f
  rcases stoodFor with _ | ⟨_ | l⟩ <;> rfl

theorem linkCells?_eq (ts : List Tree) : linkCells? room inner? ts =
    (Tree.fields? linkNames (.array ts)).bind (linkOf? room inner?) := by
  rcases ts with _ | ⟨t₁, _ | ⟨t₂, _ | ⟨t₃, _ | ⟨t₄, _ | ⟨t₅, ts⟩⟩⟩⟩⟩
  iterate 5
    simp [linkCells?, toLink_eq, need?, cell?, noMore?, Tree.fields?, linkNames, linkOf?, List.lookup_cons,
      Option.bind_map]
  have hlong : linkNames.length < (t₁ :: t₂ :: t₃ :: t₄ :: t₅ :: ts).length :=
    Nat.le_add_left 5 ts.length
  rw [fields?_array_of_lt hlong]
  simp [linkCells?, need?, cell?, noMore?]

/-- What one entry does to a link in the making. -/
def linkStep (room : Nat) (inner? : Tree → Option Link) (f : LinkFields) (name : String) (x : Tree) :
    Option LinkFields :=
  match name with
  | "source" => fill f.source (endpoint? room) (fun a => { f with source := some a }) x
  | "target" => fill f.target (endpoint? room) (fun a => { f with target := some a }) x
  | "isGroupLink" => fill f.grouped Tree.flag? (fun a => { f with grouped := some a }) x
  | "originalLink" => fill f.stoodFor (Tree.nullable? inner?) (fun a => { f with stoodFor := some a }) x
  | _ => some f

theorem linkStep_other {f : LinkFields} {name : String} (h : name ∉ linkNames) :
    linkStep room inner? f name = fun _ => some f := by
  funext x
  unfold linkStep
  split
  iterate 4 exact absurd (by decide) h
  rfl

theorem refinesEntry_linkEntry (hinner : Refines inner inner?) :
    RefinesEntry (linkEntry room inner) (byName (linkStep room inner?)) := by
  apply refinesEntry_key (fun _ => rfl)
  intro f name
  split
  · exact refinesValue_once refines_endpoint
  · exact refinesValue_once refines_endpoint
  · exact refinesValue_once refines_flag
  · exact refinesValue_once (refines_nullable hinner)
  · rw [linkStep_other]
    · exact refinesValue_unknown
    · simp_all [linkNames]

/-- The fields of a link. -/
def linkTable (room : Nat) (inner? : Tree → Option Link) : FieldTable LinkFields where
  names := linkNames
  Each p f g :=
    p "source" (endpoint? room) f.source g.source ∧ p "target" (endpoint? room) f.target g.target ∧
    p "isGroupLink" Tree.flag? f.grouped g.grouped ∧
    p "originalLink" (Tree.nullable? inner?) f.stoodFor g.stoodFor
  imp h := by
    rintro ⟨h₁, h₂, h₃, h₄⟩
    exact ⟨h _ _ _ _ h₁, h _ _ _ _ h₂, h _ _ _ _ h₃, h _ _ _ _ h₄⟩
  and := by
    rintro p q f g ⟨h₁, h₂, h₃, h₄⟩ ⟨k₁, k₂, k₃, k₄⟩
    exact ⟨⟨h₁, k₁⟩, ⟨h₂, k₂⟩, ⟨h₃, k₃⟩, ⟨h₄, k₄⟩⟩
  comp := by
    intro p q f g
    constructor
    · rintro ⟨⟨a₁, h₁, k₁⟩, ⟨a₂, h₂, k₂⟩, ⟨a₃, h₃, k₃⟩, ⟨a₄, h₄, k₄⟩⟩
      exact ⟨⟨a₁, a₂, a₃, a₄⟩, ⟨h₁, h₂, h₃, h₄⟩, k₁, k₂, k₃, k₄⟩
    · rintro ⟨f', ⟨h₁, h₂, h₃, h₄⟩, k₁, k₂, k₃, k₄⟩
      exact ⟨⟨_, h₁, k₁⟩, ⟨_, h₂, k₂⟩, ⟨_, h₃, k₃⟩, ⟨_, h₄, k₄⟩⟩
  eq := by
    rintro ⟨_, _, _, _⟩ ⟨_, _, _, _⟩
    simp
  named := by
    intro P f g
    simp [linkNames]

theorem linkStep_eq_some {f g : LinkFields} {name : String} {x : Tree} :
    linkStep room inner? f name x = some g ↔
      (linkTable room inner?).Each (fun n d a b => slotStep n d a (name, x) = some b) f g := by
  obtain ⟨source, target, grouped, stoodFor⟩ := f
  obtain ⟨source', target', grouped', stoodFor'⟩ := g
  by_cases hname : name ∈ linkNames
  · simp only [linkNames, List.mem_cons, List.not_mem_nil, or_false] at hname
    rcases hname with rfl | rfl | rfl | rfl
    · cases source <;> cases hx : endpoint? room x <;> simp [linkTable, linkStep, slotStep, fill, hx]
    · cases target <;> cases hx : endpoint? room x <;> simp [linkTable, linkStep, slotStep, fill, hx]
    · cases grouped <;> cases hx : x.flag? <;> simp [linkTable, linkStep, slotStep, fill, hx]
    · cases stoodFor <;> cases hx : x.nullable? inner? <;>
        simp [linkTable, linkStep, slotStep, fill, hx]
  · rw [linkStep_other hname]
    simp only [linkNames, List.mem_cons, List.not_mem_nil, or_false, not_or] at hname
    simp [linkTable, slotStep, hname]

/-- A link, once its required fields are there. -/
def LinkFields.toLink? (f : LinkFields) : Option Link := do
  let source ← f.source
  let target ← f.target
  return f.toLink source target

theorem yields_toLink? (f : LinkFields) (s : List Char) (l : Link) (q : List Char) :
    Yields (do
      let source ← present "source" f.source
      let target ← present "target" f.target
      return f.toLink source target) s l q ↔ f.toLink? = some l ∧ s = q := by
  simp only [yields_present_bind, yields_pure, LinkFields.toLink?, Option.bind_eq_bind,
    Option.bind_eq_some_iff, Option.pure_def, Option.some.injEq]
  constructor
  · rintro ⟨source, hsource, target, htarget, hl, hq⟩
    exact ⟨⟨source, hsource, target, htarget, hl⟩, hq⟩
  · rintro ⟨⟨source, hsource, target, htarget, hl⟩, hq⟩
    exact ⟨source, hsource, target, htarget, hl, hq⟩

theorem linkOf?_eq_some {fs : List (String × Tree)} {l : Link} : linkOf? room inner? fs = some l ↔
    ∃ f, (linkTable room inner?).Each (fun name d _ b => (fs.lookup name).mapM d = some b) {} f ∧
      f.toLink? = some l := by
  simp only [linkOf?, linkTable, LinkFields.toLink?, toLink_eq, Option.bind_eq_bind,
    Option.bind_eq_some_iff, Option.pure_def, Option.some.injEq]
  constructor
  · rintro ⟨x₁, hx₁, source, hsource, x₂, hx₂, target, htarget, grouped, hgrouped, stoodFor,
      hstoodFor, hl⟩
    refine ⟨⟨some source, some target, grouped, stoodFor⟩, ⟨?_, ?_, hgrouped, hstoodFor⟩, source, rfl,
      target, rfl, hl⟩
    · exact mapM_eq_some_some.mpr ⟨x₁, hx₁, hsource⟩
    · exact mapM_eq_some_some.mpr ⟨x₂, hx₂, htarget⟩
  · rintro ⟨⟨_, _, grouped, stoodFor⟩, ⟨hsource, htarget, hgrouped, hstoodFor⟩, source, rfl, target,
      rfl, hl⟩
    obtain ⟨x₁, hx₁, hsource⟩ := mapM_eq_some_some.mp hsource
    obtain ⟨x₂, hx₂, htarget⟩ := mapM_eq_some_some.mp htarget
    exact ⟨x₁, hx₁, source, hsource, x₂, hx₂, target, htarget, grouped, hgrouped, stoodFor, hstoodFor,
      hl⟩

end Links

theorem refines_link : Refines (link room) (link? room) := by
  induction room with
  | zero => exact refines_record_none
  | succ room ih =>
    exact refines_fields (T := linkTable room (link? room)) (refinesCells_linkCells ih) linkCells?_eq
      (refinesEntry_linkEntry ih) yields_toLink? linkStep_eq_some ⟨rfl, rfl, rfl, rfl⟩ linkOf?_eq_some

-- ---------------------------------------------------------------------------
-- Graphs
-- ---------------------------------------------------------------------------

def graphCells? (room : Nat) : List Tree → Option Graph :=
  cell? (Tree.list? room node?) fun nodes => cell? (Tree.list? room link?) fun links =>
    noMore? { nodes, links : GraphFields }.toGraph

theorem refinesCells_graphCells : RefinesCells (graphCells room) (graphCells? room) :=
  refinesCells_firstCell (refines_list fun _ => refines_node) fun _ =>
    refinesRest_nextCell (refines_list fun _ => refines_link) fun _ => refinesRest_pure

theorem graphCells?_eq (ts : List Tree) :
    graphCells? room ts = (Tree.fields? graphNames (.array ts)).bind (graphOf? room) := by
  rcases ts with _ | ⟨t₁, _ | ⟨t₂, _ | ⟨t₃, ts⟩⟩⟩
  iterate 3
    simp [graphCells?, GraphFields.toGraph, cell?, noMore?, Tree.fields?, graphNames, graphOf?,
      List.lookup_cons, Option.bind_map]
  have hlong : graphNames.length < (t₁ :: t₂ :: t₃ :: ts).length := Nat.le_add_left 3 ts.length
  rw [fields?_array_of_lt hlong]
  simp [graphCells?, cell?, noMore?]

/-- What one entry does to a graph in the making. -/
def graphStep (room : Nat) (f : GraphFields) (name : String) (x : Tree) : Option GraphFields :=
  match name with
  | "nodes" => fill f.nodes (Tree.list? room node?) (fun a => { f with nodes := some a }) x
  | "links" => fill f.links (Tree.list? room link?) (fun a => { f with links := some a }) x
  | _ => some f

theorem graphStep_other {f : GraphFields} {name : String} (h : name ∉ graphNames) :
    graphStep room f name = fun _ => some f := by
  funext x
  unfold graphStep
  split
  iterate 2 exact absurd (by decide) h
  rfl

theorem refinesEntry_graphEntry : RefinesEntry (graphEntry room) (byName (graphStep room)) := by
  apply refinesEntry_key (fun _ => rfl)
  intro f name
  split
  · exact refinesValue_once (refines_list fun _ => refines_node)
  · exact refinesValue_once (refines_list fun _ => refines_link)
  · rw [graphStep_other]
    · exact refinesValue_unknown
    · simp_all [graphNames]

/-- The fields of a graph. -/
def graphTable (room : Nat) : FieldTable GraphFields where
  names := graphNames
  Each p f g :=
    p "nodes" (Tree.list? room node?) f.nodes g.nodes ∧
    p "links" (Tree.list? room link?) f.links g.links
  imp h := by
    rintro ⟨h₁, h₂⟩
    exact ⟨h _ _ _ _ h₁, h _ _ _ _ h₂⟩
  and := by
    rintro p q f g ⟨h₁, h₂⟩ ⟨k₁, k₂⟩
    exact ⟨⟨h₁, k₁⟩, ⟨h₂, k₂⟩⟩
  comp := by
    intro p q f g
    constructor
    · rintro ⟨⟨a₁, h₁, k₁⟩, ⟨a₂, h₂, k₂⟩⟩
      exact ⟨⟨a₁, a₂⟩, ⟨h₁, h₂⟩, k₁, k₂⟩
    · rintro ⟨f', ⟨h₁, h₂⟩, k₁, k₂⟩
      exact ⟨⟨_, h₁, k₁⟩, ⟨_, h₂, k₂⟩⟩
  eq := by
    rintro ⟨_, _⟩ ⟨_, _⟩
    simp
  named := by
    intro P f g
    simp [graphNames]

theorem graphStep_eq_some {f g : GraphFields} {name : String} {x : Tree} :
    graphStep room f name x = some g ↔
      (graphTable room).Each (fun n d a b => slotStep n d a (name, x) = some b) f g := by
  obtain ⟨nodes, links⟩ := f
  obtain ⟨nodes', links'⟩ := g
  by_cases hname : name ∈ graphNames
  · simp only [graphNames, List.mem_cons, List.not_mem_nil, or_false] at hname
    rcases hname with rfl | rfl
    · cases nodes <;> cases hx : x.list? room node? <;> simp [graphTable, graphStep, slotStep, fill, hx]
    · cases links <;> cases hx : x.list? room link? <;> simp [graphTable, graphStep, slotStep, fill, hx]
  · rw [graphStep_other hname]
    simp only [graphNames, List.mem_cons, List.not_mem_nil, or_false, not_or] at hname
    simp [graphTable, slotStep, hname]

theorem yields_toGraph (f : GraphFields) (s : List Char) (g : Graph) (q : List Char) :
    Yields (pure f.toGraph) s g q ↔ some f.toGraph = some g ∧ s = q := by
  rw [yields_pure, Option.some.injEq]

theorem graphOf?_eq_some {fs : List (String × Tree)} {g : Graph} : graphOf? room fs = some g ↔
    ∃ f, (graphTable room).Each (fun name d _ b => (fs.lookup name).mapM d = some b) {} f ∧
      some f.toGraph = some g := by
  simp only [graphOf?, graphTable, GraphFields.toGraph, Option.bind_eq_bind, Option.bind_eq_some_iff,
    Option.pure_def, Option.some.injEq]
  constructor
  · rintro ⟨nodes, hnodes, links, hlinks, hg⟩
    exact ⟨⟨nodes, links⟩, ⟨hnodes, hlinks⟩, hg⟩
  · rintro ⟨⟨nodes, links⟩, ⟨hnodes, hlinks⟩, hg⟩
    exact ⟨nodes, hnodes, links, hlinks, hg⟩

theorem refines_graph : Refines (graph room) (graph? room) := by
  cases room with
  | zero => exact refines_record_none
  | succ room =>
    exact refines_fields (T := graphTable room) refinesCells_graphCells graphCells?_eq
      refinesEntry_graphEntry yields_toGraph graphStep_eq_some ⟨rfl, rfl⟩ graphOf?_eq_some

/-- The reader returns a graph exactly for the documents that the schema decodes to it. -/
theorem read_eq_ok_iff (raw : String) (g : Graph) :
    read raw = .ok g ↔ ∃ t, Document raw t ∧ graph? maxDepth t = some g :=
  run_eq_ok_iff refines_graph

/-- What is logged beside a graph changes nothing about it. -/
theorem value_parse (raw : String) : (parse raw).value = read raw := by
  unfold parse
  split
  · next h => exact h.symm
  · next h => exact h.symm

end ImportAtlas.Payload
