-- SUMMARY: The format of payloads: what the reader accepts, and which differences between documents make none.
import ImportAtlas.Proofs.Payload.Reading
import Mathlib.Data.List.Nodup

/-! # The payload format

The reader accepts a text exactly if it is one document whose tree the schema decodes. The schema reads
a record by its fields: it makes no difference in which order the fields of an object stand, whether
others stand among them, and whether a record is an object or an array. -/

namespace ImportAtlas.Payload

open Json Json.Reader

/-- Two trees that are the same record with these fields, written differently. -/
inductive Restated (names : List String) : Tree → Tree → Prop where
  /-- the same entries in another order -/
  | order {es es' : List (List Piece × Tree)} (h : es.Perm es') :
      Restated names (.object es) (.object es')
  /-- one more entry, with a key that is none of the names -/
  | extra {k : List Piece} {x : Tree} {name : String} {es : List (List Piece × Tree)}
      (hk : Piece.text? k = some name) (hname : name ∉ names) :
      Restated names (.object ((k, x) :: es)) (.object es)
  /-- an array of the fields in order -/
  | form {ts : List Tree} {es : List (List Piece × Tree)} (hts : ts.length ≤ names.length)
      (hes : Tree.named? es = some (names.zip ts)) : Restated names (.array ts) (.object es)

variable {α : Type} {room : Nat} {names : List String} {t t' : Tree}

-- ---------------------------------------------------------------------------
-- Order
-- ---------------------------------------------------------------------------

theorem exists_named?_of_perm {es es' : List (List Piece × Tree)} (h : es.Perm es')
    {fs : List (String × Tree)} (hfs : Tree.named? es = some fs) :
    ∃ fs', Tree.named? es' = some fs' ∧ fs.Perm fs' := by
  induction h generalizing fs with
  | nil => exact ⟨fs, hfs, .refl fs⟩
  | cons e _ ih =>
    obtain ⟨name, fs, hname, hrest, rfl⟩ := named?_cons_eq_some.mp hfs
    obtain ⟨fs', hfs', hperm⟩ := ih hrest
    exact ⟨_, named?_cons_eq_some.mpr ⟨name, fs', hname, hfs', rfl⟩, hperm.cons _⟩
  | swap e e' es =>
    obtain ⟨name, _, hname, hrest, rfl⟩ := named?_cons_eq_some.mp hfs
    obtain ⟨name', fs, hname', hrest', rfl⟩ := named?_cons_eq_some.mp hrest
    have hes : Tree.named? (e' :: es) = some ((name, e'.2) :: fs) :=
      named?_cons_eq_some.mpr ⟨name, fs, hname, hrest', rfl⟩
    exact ⟨_, named?_cons_eq_some.mpr ⟨name', _, hname', hes, rfl⟩, .swap ..⟩
  | trans _ _ ih ih' =>
    obtain ⟨fs₁, hfs₁, hperm₁⟩ := ih hfs
    obtain ⟨fs₂, hfs₂, hperm₂⟩ := ih' hfs₁
    exact ⟨fs₂, hfs₂, hperm₁.trans hperm₂⟩

/-- A field that stands there once is found in any order. -/
theorem lookup_eq_of_perm {fs fs' : List (String × Tree)} (h : fs.Perm fs') {name : String}
    (hcount : fs.countP (·.1 == name) ≤ 1) : fs.lookup name = fs'.lookup name := by
  have hfilter := h.filter (·.1 == name)
  rw [lookup_eq_head?, lookup_eq_head?]
  rw [List.countP_eq_length_filter] at hcount
  match hfs : fs.filter (·.1 == name) with
  | [] =>
    rw [hfs] at hfilter
    rw [List.nil_perm.mp hfilter, hfs]
  | [f] =>
    rw [hfs] at hfilter
    rw [← List.singleton_perm.mp hfilter, hfs]
  | f :: f' :: fs =>
    rw [hfs] at hcount
    simp at hcount

theorem fields?_bind_of_perm {dec : List (String × Tree) → Option α}
    (hdec : ∀ fs fs', (∀ name ∈ names, fs.lookup name = fs'.lookup name) → dec fs = dec fs')
    {es es' : List (List Piece × Tree)} (h : es.Perm es') {a : α}
    (ha : (Tree.fields? names (.object es)).bind dec = some a) :
    (Tree.fields? names (.object es')).bind dec = some a := by
  obtain ⟨fs, hfs, ha⟩ := Option.bind_eq_some_iff.mp ha
  obtain ⟨hfs, hcount⟩ := fields?_object_eq_some.mp hfs
  obtain ⟨fs', hfs', hperm⟩ := exists_named?_of_perm h hfs
  have hcount' : ∀ name ∈ names, fs'.countP (·.1 == name) ≤ 1 := by
    intro name hname
    rw [← hperm.countP_eq]
    exact hcount name hname
  rw [fields?_object_eq_some.mpr ⟨hfs', hcount'⟩, Option.bind_some, ← ha]
  exact (hdec fs fs' fun name hname => lookup_eq_of_perm hperm (hcount name hname)).symm

-- ---------------------------------------------------------------------------
-- Other fields, and the two forms
-- ---------------------------------------------------------------------------

theorem fields?_extra {k : List Piece} {x : Tree} {name : String} {es : List (List Piece × Tree)}
    (hk : Piece.text? k = some name) (hname : name ∉ names) :
    Tree.fields? names (.object ((k, x) :: es)) =
      (Tree.fields? names (.object es)).map ((name, x) :: ·) := by
  ext fs
  simp only [Option.map_eq_some_iff, fields?_object_eq_some, named?_cons_eq_some, hk,
    Option.some.injEq]
  have hcount : ∀ fs : List (String × Tree), (∀ n ∈ names, ((name, x) :: fs).countP (·.1 == n) ≤ 1) ↔
      ∀ n ∈ names, fs.countP (·.1 == n) ≤ 1 := by
    intro fs
    refine forall₂_congr fun n hn => ?_
    rw [List.countP_cons_of_neg]
    intro h
    obtain rfl : name = n := eq_of_beq h
    exact hname hn
  constructor
  · rintro ⟨⟨_, fs', rfl, hfs', rfl⟩, h⟩
    exact ⟨fs', ⟨hfs', (hcount fs').mp h⟩, rfl⟩
  · rintro ⟨fs', ⟨hfs', h⟩, rfl⟩
    exact ⟨⟨name, fs', rfl, hfs', rfl⟩, (hcount fs').mpr h⟩

theorem lookup_cons_of_not_mem {name : String} {x : Tree} (hname : name ∉ names)
    (fs : List (String × Tree)) : ∀ n ∈ names, ((name, x) :: fs).lookup n = fs.lookup n := by
  intro n hn
  have hne : (n == name) = false := by
    simp only [beq_eq_false_iff_ne]
    rintro rfl
    exact hname hn
  rw [List.lookup_cons, hne]

theorem fields?_form (hnames : names.Nodup) {ts : List Tree} {es : List (List Piece × Tree)}
    (hts : ts.length ≤ names.length) (hes : Tree.named? es = some (names.zip ts)) :
    Tree.fields? names (.array ts) = Tree.fields? names (.object es) := by
  have hzip : ((names.zip ts).map (·.1)).Nodup := by
    rw [List.zip_eq_zip_take_min, List.map_fst_zip (by simp)]
    exact hnames.sublist (List.take_sublist ..)
  rw [Tree.fields?, if_pos hts, fields?_object_of_nodup hes hzip]

/-- A decoder that looks at these fields only does not see how the record is written. -/
theorem Restated.bind_eq {dec : List (String × Tree) → Option α} (hnames : names.Nodup)
    (hdec : ∀ fs fs', (∀ name ∈ names, fs.lookup name = fs'.lookup name) → dec fs = dec fs')
    (h : Restated names t t') : (t.fields? names).bind dec = (t'.fields? names).bind dec := by
  cases h with
  | order h =>
    ext a
    exact ⟨fields?_bind_of_perm hdec h, fields?_bind_of_perm hdec h.symm⟩
  | extra hk hname =>
    rw [fields?_extra hk hname, Option.bind_map]
    congr 1
    funext fs
    exact hdec _ _ (lookup_cons_of_not_mem hname fs)
  | form hts hes => rw [fields?_form hnames hts hes]

-- ---------------------------------------------------------------------------
-- Payloads
-- ---------------------------------------------------------------------------

theorem Restated.node?_eq (h : Restated nodeNames t t') : node? room t = node? room t' := by
  cases room with
  | zero => rfl
  | succ room =>
    refine h.bind_eq (by decide) fun fs fs' hfs => ?_
    simp only [nodeNames, List.forall_mem_cons] at hfs
    simp only [nodeOf?, hfs]

theorem Restated.link?_eq (h : Restated linkNames t t') : link? room t = link? room t' := by
  cases room with
  | zero => rfl
  | succ room =>
    refine h.bind_eq (by decide) fun fs fs' hfs => ?_
    simp only [linkNames, List.forall_mem_cons] at hfs
    simp only [linkOf?, hfs]

theorem Restated.graph?_eq (h : Restated graphNames t t') : graph? room t = graph? room t' := by
  cases room with
  | zero => rfl
  | succ room =>
    refine h.bind_eq (by decide) fun fs fs' hfs => ?_
    simp only [graphNames, List.forall_mem_cons] at hfs
    simp only [graphOf?, hfs]

/-- A text is read as a graph exactly if it is one document, and its only tree holds the graph; and
nothing hangs on the way in which the records of the tree are written. -/
theorem parse_eq_ok_iff :
    (∀ (raw : String) (g : Graph),
      (parse raw).value = .ok g ↔ ∃ t, Document raw t ∧ graph? maxDepth t = some g) ∧
    (∀ (raw : String) (t t' : Tree), Document raw t → Document raw t' → t = t') ∧
    (∀ (room : Nat) (t t' : Tree), Restated graphNames t t' → graph? room t = graph? room t') ∧
    (∀ (room : Nat) (t t' : Tree), Restated nodeNames t t' → node? room t = node? room t') ∧
    (∀ (room : Nat) (t t' : Tree), Restated linkNames t t' → link? room t = link? room t') := by
  refine ⟨fun raw g => ?_, fun _ _ _ => document_unique, fun _ _ _ => Restated.graph?_eq,
    fun _ _ _ => Restated.node?_eq, fun _ _ _ => Restated.link?_eq⟩
  rw [value_parse, read_eq_ok_iff]

theorem parse_eq_ok_iff_array :
    (∃ t, Document " [[[\"a\", \"b\", \"root\"]]]\n" t ∧
      graph? maxDepth t = some { nodes := [{ id := "a", name := "b", kind := .root }], links := [] }) ∧
    graph? 1 (.object [("x".toList.map .char, .null)]) = some { nodes := [], links := [] } ∧
    node? 1 (.array [.string [.char 'a'], .string [.char 'b'], .string ("root".toList.map .char)]) =
      some { id := "a", name := "b", kind := .root } ∧
    link? 1 (.object [("target".toList.map .char, .string []),
        ("source".toList.map .char, .string [])]) =
      some { source := "", target := "", grouped := false, standsFor := [] } := by
  refine ⟨?_, ?_, ?_, ?_⟩
  · exact (parse_eq_ok_iff.1 _ _).mp (by decide +kernel)
  · exact (parse_eq_ok_iff.2.2.1 1 _ (.object []) (.extra rfl (by decide : "x" ∉ graphNames))).trans rfl
  · refine (parse_eq_ok_iff.2.2.2.1 1 _ (.object [("id".toList.map .char, .string [.char 'a']),
      ("name".toList.map .char, .string [.char 'b']),
      ("type".toList.map .char, .string ("root".toList.map .char))]) (.form (by decide) rfl)).trans rfl
  · exact (parse_eq_ok_iff.2.2.2.2 1 _ _ (.order (.swap ..))).trans rfl

end ImportAtlas.Payload
