-- SUMMARY: Records whose fields fill up in any order: the reader of entries against the look-up of fields.
import ImportAtlas.Proofs.Json.Typed

/-! # Records

A reader of a record in object form keeps what it has seen of each field and refuses a field that comes
again. Field by field this is a slot that fills up once at most, and the slot ends up with what looking
the field up afterwards gives. `FieldTable` lists the fields of a record, so that the argument is made
once for all records. -/

namespace ImportAtlas.Json.Reader

variable {α β σ : Type}

theorem foldlM_byName {f g : σ} {step : σ → String → Tree → Option σ}
    {es : List (List Piece × Tree)} : es.foldlM (byName step) f = some g ↔
      ∃ fs, Tree.named? es = some fs ∧ fs.foldlM (fun f e => step f e.1 e.2) f = some g := by
  induction es generalizing f with
  | nil =>
    constructor
    · intro h
      exact ⟨[], rfl, h⟩
    · rintro ⟨fs, hfs, h⟩
      cases hfs
      exact h
  | cons e es ih =>
    simp only [foldlM_cons_eq_some, ih, byName, Option.bind_eq_some_iff]
    constructor
    · rintro ⟨f', ⟨name, hname, hstep⟩, fs, hfs, h⟩
      exact ⟨(name, e.2) :: fs, named?_cons_eq_some.mpr ⟨name, fs, hname, hfs, rfl⟩,
        foldlM_cons_eq_some.mpr ⟨f', hstep, h⟩⟩
    · rintro ⟨fs, hfs, h⟩
      obtain ⟨name, fs', hname, hfs', rfl⟩ := named?_cons_eq_some.mp hfs
      obtain ⟨f', hstep, h⟩ := foldlM_cons_eq_some.mp h
      exact ⟨f', ⟨name, hname, hstep⟩, fs', hfs', h⟩

-- ---------------------------------------------------------------------------
-- Slots
-- ---------------------------------------------------------------------------

/-- What an entry does to the field with a given name. -/
def slotStep (name : String) (d : Tree → Option α) (seen : Option α) (e : String × Tree) :
    Option (Option α) :=
  if e.1 = name then fill seen d some e.2 else some seen

/-- One field of a record as it fills up, entry by entry. -/
def slot? (name : String) (d : Tree → Option α) (seen : Option α) (fs : List (String × Tree)) :
    Option (Option α) :=
  fs.foldlM (slotStep name d) seen

section Slots

variable {name : String} {d : Tree → Option α} {x : Tree} {fs : List (String × Tree)} {o : Option α}

theorem slot?_cons {e : String × Tree} {seen : Option α} : slot? name d seen (e :: fs) = some o ↔
    ∃ seen', slotStep name d seen e = some seen' ∧ slot? name d seen' fs = some o :=
  foldlM_cons_eq_some

/-- A field that was seen is not seen again. -/
theorem slot?_some_eq_some {a : α} :
    slot? name d (some a) fs = some o ↔ fs.countP (·.1 == name) = 0 ∧ o = some a := by
  induction fs with
  | nil => simp [slot?, eq_comm]
  | cons f fs ih =>
    rw [slot?_cons]
    by_cases h : f.1 = name
    · simp [slotStep, fill, h]
    · simp [slotStep, h, ih]

theorem slot?_none_eq_some : slot? name d none fs = some o ↔
    fs.countP (·.1 == name) ≤ 1 ∧ (fs.lookup name).mapM d = some o := by
  induction fs with
  | nil => simp [slot?]
  | cons f fs ih =>
    obtain ⟨n, x⟩ := f
    rw [slot?_cons]
    by_cases h : n = name
    · subst h
      have hcount : ((n, x) :: fs).countP (·.1 == n) ≤ 1 ↔ fs.countP (·.1 == n) = 0 := by
        rw [List.countP_cons_of_pos (by simp)]
        omega
      simp only [slotStep, fill, if_true, Option.map_eq_some_iff, hcount, List.lookup_cons_self,
        Option.mapM_some, Option.map_eq_map]
      constructor
      · rintro ⟨_, ⟨a, hx, rfl⟩, hfs⟩
        obtain ⟨hcount, rfl⟩ := slot?_some_eq_some.mp hfs
        exact ⟨hcount, a, hx, rfl⟩
      · rintro ⟨hfs, a, hx, rfl⟩
        exact ⟨some a, ⟨a, hx, rfl⟩, slot?_some_eq_some.mpr ⟨hfs, rfl⟩⟩
    · have hname : (name == n) = false := by simpa using fun h' => h h'.symm
      simp [slotStep, h, ih, List.lookup_cons, hname]

end Slots

theorem mapM_eq_some_some {d : Tree → Option α} {o : Option Tree} {a : α} :
    o.mapM d = some (some a) ↔ ∃ x, o = some x ∧ d x = some a := by
  cases o with
  | none => simp
  | some x => simp

-- ---------------------------------------------------------------------------
-- Tables of fields
-- ---------------------------------------------------------------------------

/-- A relation between what was seen of a field before and after, for a field of any type. -/
abbrev FieldRel : Type 1 := {α : Type} → String → (Tree → Option α) → Option α → Option α → Prop

/-- The fields of a record in the making, with their names and decoders. `Each p f g` says that `p`
holds between each field of `f` and the same field of `g`. -/
structure FieldTable (σ : Type) where
  names : List String
  Each : FieldRel → σ → σ → Prop
  imp : ∀ {p q : FieldRel} {f g}, (∀ {α} name d (a b : Option α), p name d a b → q name d a b) →
    Each p f g → Each q f g
  and : ∀ {p q : FieldRel} {f g}, Each p f g → Each q f g →
    Each (fun name d a b => p name d a b ∧ q name d a b) f g
  comp : ∀ {p q : FieldRel} {f g}, Each (fun name d a b => ∃ c, p name d a c ∧ q name d c b) f g ↔
    ∃ h, Each p f h ∧ Each q h g
  eq : ∀ {f g}, Each (fun _ _ a b => a = b) f g ↔ f = g
  named : ∀ {P : String → Prop} {f g}, Each (fun name _ _ _ => P name) f g ↔ ∀ name ∈ names, P name

namespace FieldTable

variable {T : FieldTable σ} {step : σ → String → Tree → Option σ}

theorem congr {p q : FieldRel} {f g : σ}
    (h : ∀ {α} name d (a b : Option α), p name d a b ↔ q name d a b) : T.Each p f g ↔ T.Each q f g :=
  ⟨T.imp fun name d a b => (h name d a b).mp, T.imp fun name d a b => (h name d a b).mpr⟩

/-- The entries of a record do to each field what they would do to the field alone. -/
theorem foldlM_eq_some (hstep : ∀ {f name x g}, step f name x = some g ↔
      T.Each (fun n d a b => slotStep n d a (name, x) = some b) f g)
    {fs : List (String × Tree)} {f g : σ} :
    fs.foldlM (fun f e => step f e.1 e.2) f = some g ↔
      T.Each (fun name d a b => slot? name d a fs = some b) f g := by
  induction fs generalizing f with
  | nil =>
    have hnil : T.Each (fun name d a b => slot? name d a [] = some b) f g ↔ f = g := by
      rw [← T.eq]
      exact congr fun name d a b => Option.some_inj
    rw [hnil]
    exact Option.some_inj
  | cons e fs ih =>
    simp only [foldlM_cons_eq_some, hstep, ih, ← T.comp]
    exact congr fun name d a b => slot?_cons.symm

/-- What the slots of an empty record end up with is what looking the fields up gives. -/
theorem each_slot_iff {fs : List (String × Tree)} {empty g : σ}
    (hempty : T.Each (fun _ _ a _ => a = none) empty g) :
    T.Each (fun name d a b => slot? name d a fs = some b) empty g ↔
      (∀ name ∈ T.names, fs.countP (·.1 == name) ≤ 1) ∧
        T.Each (fun name d _ b => (fs.lookup name).mapM d = some b) empty g := by
  have hslot : ∀ {α} name d (a b : Option α), a = none → (slot? name d a fs = some b ↔
      fs.countP (·.1 == name) ≤ 1 ∧ (fs.lookup name).mapM d = some b) := by
    rintro α name d a b rfl
    exact slot?_none_eq_some
  constructor
  · intro h
    have h := T.and hempty h
    refine ⟨T.named.mp (T.imp ?_ h), T.imp ?_ h⟩
    · rintro α name d a b ⟨ha, hb⟩
      exact ((hslot name d a b ha).mp hb).1
    · rintro α name d a b ⟨ha, hb⟩
      exact ((hslot name d a b ha).mp hb).2
  · rintro ⟨hcount, hlookup⟩
    refine T.imp ?_ (T.and hempty (T.and (T.named.mpr hcount) hlookup))
    rintro α name d a b ⟨ha, hb⟩
    exact (hslot name d a b ha).mpr hb

theorem foldlM_bind_eq {empty : σ} {finish : σ → Option α} {dec : List (String × Tree) → Option α}
    (hstep : ∀ {f name x g}, step f name x = some g ↔
      T.Each (fun n d a b => slotStep n d a (name, x) = some b) f g)
    (hempty : ∀ {g}, T.Each (fun _ _ a _ => a = none) empty g)
    (hdec : ∀ {fs a}, dec fs = some a ↔
      ∃ g, T.Each (fun name d _ b => (fs.lookup name).mapM d = some b) empty g ∧ finish g = some a)
    (es : List (List Piece × Tree)) :
    (es.foldlM (byName step) empty).bind finish =
      (Tree.fields? T.names (.object es)).bind dec := by
  ext a
  simp only [Option.bind_eq_some_iff, foldlM_byName, foldlM_eq_some hstep, each_slot_iff hempty,
    fields?_object_eq_some, hdec]
  constructor
  · rintro ⟨g, ⟨fs, hfs, hcount, hlookup⟩, ha⟩
    exact ⟨fs, ⟨hfs, hcount⟩, g, hlookup, ha⟩
  · rintro ⟨fs, ⟨hfs, hcount⟩, g, hlookup, ha⟩
    exact ⟨g, ⟨fs, hfs, hcount, hlookup⟩, ha⟩

end FieldTable

-- ---------------------------------------------------------------------------
-- Reading a record
-- ---------------------------------------------------------------------------

/-- A record is read where its fields, in either form, decode to it. -/
theorem refines_fields {T : FieldTable σ} {step : σ → String → Tree → Option σ} {empty : σ}
    {finish : σ → Option α} {dec : List (String × Tree) → Option α} {expected : String}
    {cells : Reader α} {cells? : List Tree → Option α} {entry : σ → Reader σ} {k : σ → Reader α}
    (hcells : RefinesCells cells cells?)
    (hcells? : ∀ ts, cells? ts = (Tree.fields? T.names (.array ts)).bind dec)
    (hentry : RefinesEntry entry (byName step))
    (hk : ∀ f s a q, Yields (k f) s a q ↔ finish f = some a ∧ s = q)
    (hstep : ∀ {f name x g}, step f name x = some g ↔
      T.Each (fun n d a b => slotStep n d a (name, x) = some b) f g)
    (hempty : ∀ {g}, T.Each (fun _ _ a _ => a = none) empty g)
    (hdec : ∀ {fs a}, dec fs = some a ↔
      ∃ g, T.Each (fun name d _ b => (fs.lookup name).mapM d = some b) empty g ∧ finish g = some a) :
    Refines (record expected (some (cells, entries entry empty >>= k)))
      (fun t => (t.fields? T.names).bind dec) := by
  have heq : ∀ t, record? cells? (fun es => (es.foldlM (byName step) empty).bind finish) t =
      (t.fields? T.names).bind dec := by
    intro t
    cases t with
    | array ts => exact hcells? ts
    | object es => exact FieldTable.foldlM_bind_eq hstep hempty hdec es
    | null | bool | number | string => rfl
  intro s a r
  simp only [← heq]
  exact refines_record hcells (refinesFields_entries hentry hk)

end ImportAtlas.Json.Reader
