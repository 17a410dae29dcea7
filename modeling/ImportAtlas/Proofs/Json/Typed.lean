-- SUMMARY: Typed readers take a value exactly where the grammar reads a tree that decodes to it.
import ImportAtlas.Json.Scalar
import ImportAtlas.Proofs.Json.Decoding
import ImportAtlas.Proofs.Json.Trees

/-! # Typed readers

A typed reader refines a decoder of trees if it takes `a` from a text exactly where the grammar reads a
tree there that decodes to `a`. It reads in one pass and never builds the tree; the decoder says what it
accepts. Readers of what is inside a bracket are related to decoders of lists in the same way. -/

namespace ImportAtlas.Json.Reader

/-- The reader takes a value exactly where the grammar reads a tree that decodes to it. -/
def Refines {α : Type} (x : Reader α) (d : Tree → Option α) : Prop :=
  ∀ {s a r}, Yields x s a r ↔ ∃ t, Reads s t r ∧ d t = some a

variable {α β : Type} {s r : List Char}

theorem Refines.dropBlanks {x : Reader α} {d : Tree → Option α} {a : α} (h : Refines x d) :
    Yields x (dropBlanks s) a r ↔ Yields x s a r := by
  rw [h, h]
  simp only [reads_dropBlanks]

/-- A reader of values takes nothing at a closing bracket. -/
theorem Refines.begins {x : Reader α} {d : Tree → Option α} {a : α} (h : Refines x d)
    (hx : Yields x s a r) : ∃ c s', Json.dropBlanks s = c :: s' ∧ c ≠ ']' := by
  obtain ⟨t, ht, -⟩ := h.mp hx
  obtain ⟨c, s', hs, hc⟩ := ht.begins
  exact ⟨c, s', hs, hc.ne_close⟩

theorem not_reads_of_dropBlanks_nil {t : Tree} (hs : Json.dropBlanks s = []) : ¬ Reads s t r := by
  intro h
  obtain ⟨c, s', hs', -⟩ := h.begins
  cases hs.symm.trans hs'

-- ---------------------------------------------------------------------------
-- Scalars
-- ---------------------------------------------------------------------------

theorem not_yields_mismatch {expected : String} {a : α} : ¬ Yields (mismatch expected) s a r := by
  rw [mismatch, yields_peek_bind]
  cases s.head? with
  | none => exact not_yields_refuse
  | some c =>
    intro h
    simp only at h
    repeat' split at h
    all_goals simp at h

theorem refines_text {expected : String} : Refines (text expected) Tree.text? := by
  intro s a r
  rw [text, yields_token_bind]
  cases hs : dropBlanks s with
  | nil => simp [not_reads_of_dropBlanks_nil hs]
  | cons c s' =>
    rw [List.head?_cons]
    split
    · next h => cases h
    · next h =>
      cases h
      simp only [reads_string hs, yields_bind, yields_advance, yields_textBody]
      constructor
      · rintro ⟨-, s₁, rfl, ps, hps, ha⟩
        exact ⟨.string ps, ⟨ps, rfl, hps⟩, ha⟩
      · rintro ⟨t, ⟨ps, rfl, hps⟩, ha⟩
        exact ⟨(), s', rfl, ps, hps, ha⟩
    · next hc h =>
      cases h
      constructor
      · intro hy
        exact absurd hy not_yields_mismatch
      · rintro ⟨t, ht, ha⟩
        cases t with
        | string ps => exact (hc (ht.begins_with hs)).elim
        | null | bool | number | array | object => cases ha

theorem refines_flag : Refines flag Tree.flag? := by
  intro s a r
  rw [flag, yields_token_bind]
  cases hs : dropBlanks s with
  | nil => simp [not_reads_of_dropBlanks_nil hs]
  | cons c s' =>
    rw [List.head?_cons]
    split
    · next h => cases h
    · next h =>
      cases h
      simp only [reads_true hs, yields_bind, yields_pure, yields_word]
      constructor
      · rintro ⟨-, s₁, hw, rfl, rfl⟩
        exact ⟨.bool true, ⟨rfl, hw⟩, rfl⟩
      · rintro ⟨t, ⟨rfl, hw⟩, ha⟩
        cases ha
        exact ⟨(), r, hw, rfl, rfl⟩
    · next h =>
      cases h
      simp only [reads_false hs, yields_bind, yields_pure, yields_word]
      constructor
      · rintro ⟨-, s₁, hw, rfl, rfl⟩
        exact ⟨.bool false, ⟨rfl, hw⟩, rfl⟩
      · rintro ⟨t, ⟨rfl, hw⟩, ha⟩
        cases ha
        exact ⟨(), r, hw, rfl, rfl⟩
    · next ht hf h =>
      cases h
      constructor
      · intro hy
        exact absurd hy not_yields_mismatch
      · rintro ⟨t, hread, ha⟩
        cases t with
        | bool b =>
          cases b with
          | true => exact (ht (hread.begins_with hs)).elim
          | false => exact (hf (hread.begins_with hs)).elim
        | null | string | number | array | object => cases ha

theorem refines_null : Refines null Tree.unit? := by
  intro s a r
  rw [null, yields_token_bind]
  cases hs : dropBlanks s with
  | nil => simp [not_reads_of_dropBlanks_nil hs]
  | cons c s' =>
    rw [List.head?_cons]
    split
    · next h => cases h
    · next h =>
      cases h
      simp only [reads_null hs, yields_word]
      constructor
      · intro hw
        exact ⟨.null, ⟨rfl, hw⟩, rfl⟩
      · rintro ⟨t, ⟨rfl, hw⟩, -⟩
        exact hw
    · next hc h =>
      cases h
      constructor
      · intro hy
        exact absurd hy not_yields_mismatch
      · rintro ⟨t, ht, ha⟩
        cases t with
        | null => exact (hc (ht.begins_with hs)).elim
        | bool | string | number | array | object => cases ha

theorem refines_nullable {x : Reader α} {d : Tree → Option α} (hx : Refines x d) :
    Refines (nullable x) (Tree.nullable? d) := by
  intro s a r
  rw [nullable, yields_token_bind]
  split
  · next h =>
    obtain ⟨s', hs⟩ := List.head?_eq_some_iff.mp h
    simp only [reads_null hs, yields_bind, yields_pure, yields_word]
    rw [hs]
    constructor
    · rintro ⟨-, s₁, hw, rfl, rfl⟩
      exact ⟨.null, ⟨rfl, hw⟩, rfl⟩
    · rintro ⟨t, ⟨rfl, hw⟩, ha⟩
      cases ha
      exact ⟨(), r, hw, rfl, rfl⟩
  · next hn =>
    have hnull : ∀ {t}, Reads s t r → t.nullable? d = (d t).map some := by
      intro t ht
      cases t with
      | null =>
        obtain ⟨c, s', hs, rfl⟩ := ht.begins
        rw [hs] at hn
        exact absurd rfl hn
      | bool | string | number | array | object => rfl
    rw [yields_map]
    constructor
    · rintro ⟨b, hb, rfl⟩
      obtain ⟨t, ht, hd⟩ := hx.mp (hx.dropBlanks.mp hb)
      refine ⟨t, ht, ?_⟩
      rw [hnull ht, hd]
      rfl
    · rintro ⟨t, ht, ha⟩
      rw [hnull ht, Option.map_eq_some_iff] at ha
      obtain ⟨b, hb, rfl⟩ := ha
      exact ⟨b, hx.dropBlanks.mpr (hx.mpr ⟨t, ht, hb⟩), rfl⟩

-- ---------------------------------------------------------------------------
-- Lists
-- ---------------------------------------------------------------------------

theorem moreItems_of_itemsEnd {x : Reader α} {d : Tree → Option α} {ts : List Tree} {as : List α}
    (hx : Refines x d) (h : ItemsEnd s ts r) (hd : ts.mapM d = some as) :
    Yields (moreItems x) s as (']' :: r) := by
  induction h generalizing as with
  | close hs =>
    cases hd
    exact yields_moreItems.mpr (.inl ⟨rfl, _, rfl, hs⟩)
  | @comma s s₁ t s₂ ts r hs ht _ ih =>
    obtain ⟨a, as, ha, has, rfl⟩ := mapM_cons_eq_some.mp hd
    have hitem := hx.mpr ⟨t, ht, ha⟩
    obtain ⟨c, s', hs₁, hc⟩ := hx.begins hitem
    rw [← hx.dropBlanks, hs₁] at hitem
    exact yields_moreItems.mpr (.inr ⟨s₁, c, s', a, s₂, as, rfl, hs, hs₁, hc, hitem, ih has⟩)

theorem yields_moreItems_iff {x : Reader α} {d : Tree → Option α} {as : List α} {q : List Char}
    (hx : Refines x d) : Yields (moreItems x) s as q ↔
      ∃ ts r, q = ']' :: r ∧ ItemsEnd s ts r ∧ ts.mapM d = some as := by
  constructor
  · intro h
    induction hn : s.length using Nat.strongRecOn generalizing s as with
    | ind n ih =>
      subst hn
      rcases yields_moreItems.mp h with
        ⟨rfl, r, rfl, hs⟩ | ⟨s₁, c, s₂, a, s₃, as, rfl, hs, hs₁, -, ha, has⟩
      · exact ⟨[], r, rfl, .close hs, rfl⟩
      · have hlt := Nat.lt_of_le_of_lt ha.length_le (length_lt_behind hs hs₁)
        obtain ⟨ts, r, rfl, hts, hd⟩ := ih _ hlt has rfl
        rw [← hs₁, hx.dropBlanks] at ha
        obtain ⟨t, ht, hda⟩ := hx.mp ha
        exact ⟨t :: ts, r, rfl, .comma hs ht hts, mapM_cons_eq_some.mpr ⟨a, as, hda, hd, rfl⟩⟩
  · rintro ⟨ts, r, rfl, hts, hd⟩
    exact moreItems_of_itemsEnd hx hts hd

theorem yields_items {x : Reader α} {d : Tree → Option α} {as : List α} (hx : Refines x d) :
    Yields (items x) s as r ↔
      ∃ ts, Spells ('[' :: s) (.value (.array ts)) r ∧ ts.mapM d = some as := by
  simp only [items, yields_bind, spells_array_iff]
  constructor
  · rintro ⟨b, s₁, hfirst, h⟩
    obtain ⟨c, s', rfl, hs, hb⟩ := yields_hasFirstItem.mp hfirst
    cases b with
    | true =>
      obtain ⟨a, s₂, ha, h⟩ := yields_bind.mp h
      obtain ⟨as', s₃, has, h⟩ := yields_bind.mp h
      simp only [yields_bind, yields_pure, yields_closeArray] at h
      obtain ⟨-, s₄, hclose, rfl, rfl⟩ := h
      obtain ⟨ts, r', rfl, hts, hd⟩ := (yields_moreItems_iff hx).mp has
      rw [follows_close.dropBlanks_eq] at hclose
      cases hclose
      rw [← hs, hx.dropBlanks] at ha
      obtain ⟨t, ht, hda⟩ := hx.mp ha
      exact ⟨t :: ts, .inr ⟨t, ts, s₂, rfl, ht, hts⟩, mapM_cons_eq_some.mpr ⟨a, as', hda, hd, rfl⟩⟩
    | false =>
      simp only [Bool.false_eq_true, if_false, yields_bind, yields_pure, yields_closeArray] at h
      obtain ⟨-, s₂, hclose, rfl, rfl⟩ := h
      rw [hb.mp rfl, follows_close.dropBlanks_eq] at hclose
      cases hclose
      rw [hb.mp rfl] at hs
      exact ⟨[], .inl ⟨rfl, hs⟩, rfl⟩
  · rintro ⟨ts, ⟨rfl, hs⟩ | ⟨t, ts, s₁, rfl, ht, hts⟩, hd⟩
    · cases hd
      refine ⟨false, ']' :: r, yields_hasFirstItem.mpr ⟨']', r, rfl, hs, by simp⟩, ?_⟩
      simp only [Bool.false_eq_true, if_false, yields_bind, yields_pure, yields_closeArray]
      exact ⟨(), r, follows_close.dropBlanks_eq, rfl, rfl⟩
    · obtain ⟨a, as, ha, has, rfl⟩ := mapM_cons_eq_some.mp hd
      have hitem := hx.mpr ⟨t, ht, ha⟩
      obtain ⟨c, s', hs, hc⟩ := hx.begins hitem
      rw [← hx.dropBlanks, hs] at hitem
      refine ⟨true, c :: s', yields_hasFirstItem.mpr ⟨c, s', rfl, hs, by simpa using hc⟩, ?_⟩
      refine yields_bind.mpr ⟨a, s₁, hitem, yields_bind.mpr
        ⟨as, ']' :: r, moreItems_of_itemsEnd hx hts has, ?_⟩⟩
      simp only [yields_bind, yields_pure, yields_closeArray]
      exact ⟨(), r, follows_close.dropBlanks_eq, trivial, rfl⟩

theorem refines_list {room : Nat} {x : Nat → Reader α} {d : Nat → Tree → Option α}
    (hx : ∀ room, Refines (x room) (d room)) : Refines (list room x) (Tree.list? room d) := by
  intro s as r
  rw [list, yields_token_bind]
  cases hs : dropBlanks s with
  | nil => simp [not_reads_of_dropBlanks_nil hs]
  | cons c s' =>
    rw [List.head?_cons]
    split
    · next h => cases h
    · next h =>
      cases h
      simp only [reads_array hs]
      cases room with
      | zero =>
        constructor
        · intro h
          exact absurd h not_yields_refuse
        · rintro ⟨t, ⟨ts, rfl, -⟩, hd⟩
          cases hd
      | succ room =>
        simp only [within, enter, yields_bind, yields_advance, yields_items (hx room)]
        constructor
        · rintro ⟨-, s₁, rfl, ts, hts, hd⟩
          exact ⟨.array ts, ⟨ts, rfl, hts⟩, hd⟩
        · rintro ⟨t, ⟨ts, rfl, hts⟩, hd⟩
          exact ⟨(), s', rfl, ts, hts, hd⟩
    · next hc h =>
      cases h
      constructor
      · intro hy
        exact absurd hy not_yields_mismatch
      · rintro ⟨t, ht, ha⟩
        cases t with
        | array ts => exact (hc (ht.begins_with hs)).elim
        | null | bool | string | number | object => cases ha

-- ---------------------------------------------------------------------------
-- Records in array form
-- ---------------------------------------------------------------------------

/-- A reader of what is left of an array, up to its closing bracket, against a decoder of the items. -/
def RefinesRest (x : Reader α) (d : List Tree → Option α) : Prop :=
  ∀ {s a r}, (∃ q, Yields x s a q ∧ Json.dropBlanks q = ']' :: r) ↔
    ∃ ts, ItemsEnd s ts r ∧ d ts = some a

/-- A reader of all that is inside an array, up to its closing bracket, against a decoder of the
items. -/
def RefinesCells (x : Reader α) (d : List Tree → Option α) : Prop :=
  ∀ {s a r}, (∃ q, Yields x s a q ∧ Json.dropBlanks q = ']' :: r) ↔
    ∃ ts, Spells ('[' :: s) (.value (.array ts)) r ∧ d ts = some a

/-- A reader of all that is inside an object, up to its closing brace, against a decoder of the
entries. -/
def RefinesFields (x : Reader α) (d : List (List Piece × Tree) → Option α) : Prop :=
  ∀ {s a r}, (∃ q, Yields x s a q ∧ Json.dropBlanks q = '}' :: r) ↔
    ∃ es, Spells ('{' :: s) (.value (.object es)) r ∧ d es = some a

/-- The next cell, if there is one, and the cells behind it. -/
def cell? (d : Tree → Option α) (k : Option α → List Tree → Option β) : List Tree → Option β
  | [] => k none []
  | t :: ts => (d t).bind fun a => k (some a) ts

/-- The next cell, which has to be there, and the cells behind it. -/
def need? (d : Tree → Option α) (k : α → List Tree → Option β) : List Tree → Option β
  | [] => none
  | t :: ts => (d t).bind fun a => k a ts

/-- No cell is left. -/
def noMore? (a : α) : List Tree → Option α
  | [] => some a
  | _ :: _ => none

theorem itemsEnd_close {ts : List Tree} {r' : List Char} (hs : Json.dropBlanks s = ']' :: r') :
    ItemsEnd s ts r ↔ ts = [] ∧ r' = r := by
  constructor
  · intro h
    cases h with
    | close h =>
      cases hs.symm.trans h
      exact ⟨rfl, rfl⟩
    | comma h => cases hs.symm.trans h
  · rintro ⟨rfl, rfl⟩
    exact .close hs

theorem refinesRest_pure {a : α} : RefinesRest (pure a) (noMore? a) := by
  intro s b r
  simp only [yields_pure]
  constructor
  · rintro ⟨q, ⟨rfl, rfl⟩, hs⟩
    exact ⟨[], .close hs, rfl⟩
  · rintro ⟨ts, hts, hd⟩
    cases hts with
    | close hs =>
      cases hd
      exact ⟨s, ⟨rfl, rfl⟩, hs⟩
    | comma => cases hd

theorem refinesRest_required {index : Nat} {expected : String} {o : Option α} {k : α → Reader β}
    {d : α → List Tree → Option β} (hk : ∀ a, RefinesRest (k a) (d a)) :
    RefinesRest (required index expected o >>= k) (fun ts => o.bind fun a => d a ts) := by
  cases o with
  | none =>
    intro s b r
    simp [required]
  | some a =>
    intro s b r
    simp only [required, yields_pure_bind, Option.bind_some]
    exact hk a

section Cells

variable {x : Reader α} {d : Tree → Option α} {k : Option α → Reader β}
  {e : Option α → List Tree → Option β} {b : β}

/-- A cell that is there, and the cells behind it. -/
theorem yields_someCell {c : Char} {s' : List Char} (hx : Refines x d)
    (hk : ∀ o, RefinesRest (k o) (e o)) (hs : Json.dropBlanks s = c :: s') :
    (∃ o s₁ q, Yields (some <$> x) (c :: s') o s₁ ∧ Yields (k o) s₁ b q ∧
        Json.dropBlanks q = ']' :: r) ↔
      ∃ t ts s₁, Reads s t s₁ ∧ ItemsEnd s₁ ts r ∧ cell? d e (t :: ts) = some b := by
  rw [← hs]
  simp only [yields_map, hx.dropBlanks, cell?, Option.bind_eq_some_iff]
  constructor
  · rintro ⟨o, s₁, q, ⟨a, ha, rfl⟩, h, hq⟩
    obtain ⟨t, ht, hda⟩ := hx.mp ha
    obtain ⟨ts, hts, hd⟩ := (hk (some a)).mp ⟨q, h, hq⟩
    exact ⟨t, ts, s₁, ht, hts, a, hda, hd⟩
  · rintro ⟨t, ts, s₁, ht, hts, a, hda, hd⟩
    obtain ⟨q, h, hq⟩ := (hk (some a)).mpr ⟨ts, hts, hd⟩
    exact ⟨some a, s₁, q, ⟨a, hx.mpr ⟨t, ht, hda⟩, rfl⟩, h, hq⟩

/-- No cell is there, and so none behind it. -/
theorem yields_noCell {r' : List Char} (hk : ∀ o, RefinesRest (k o) (e o)) :
    (∃ q, Yields (k none) (']' :: r') b q ∧ Json.dropBlanks q = ']' :: r) ↔
      r' = r ∧ cell? d e [] = some b := by
  rw [hk none, cell?]
  simp only [itemsEnd_close follows_close.dropBlanks_eq]
  constructor
  · rintro ⟨ts, ⟨rfl, rfl⟩, hd⟩
    exact ⟨rfl, hd⟩
  · rintro ⟨rfl, hd⟩
    exact ⟨[], ⟨rfl, rfl⟩, hd⟩

theorem refinesRest_nextCell (hx : Refines x d) (hk : ∀ o, RefinesRest (k o) (e o)) :
    RefinesRest (nextCell x >>= k) (cell? d e) := by
  intro s b r
  constructor
  · rintro ⟨q, h, hq⟩
    obtain ⟨o, s₁, ho, h⟩ := yields_bind.mp h
    obtain ⟨more, s₂, hmore, ho⟩ := yields_bind.mp ho
    rcases yields_hasNextItem.mp hmore with ⟨rfl, r', rfl, hs⟩ | ⟨rfl, s₃, c, r', rfl, hs, hs₃, -⟩
    · obtain ⟨rfl, rfl⟩ := yields_pure.mp ho
      obtain ⟨rfl, hd⟩ := (yields_noCell (d := d) hk).mp ⟨q, h, hq⟩
      exact ⟨[], .close hs, hd⟩
    · obtain ⟨t, ts, s₄, ht, hts, hd⟩ := (yields_someCell hx hk hs₃).mp ⟨o, s₁, q, ho, h, hq⟩
      exact ⟨t :: ts, .comma hs ht hts, hd⟩
  · rintro ⟨ts, hts, hd⟩
    cases hts with
    | close hs =>
      obtain ⟨q, h, hq⟩ := (yields_noCell hk).mpr ⟨rfl, hd⟩
      refine ⟨q, yields_bind.mpr ⟨none, _, yields_bind.mpr ⟨false, ']' :: r, ?_, ?_⟩, h⟩, hq⟩
      · exact yields_hasNextItem.mpr (.inl ⟨rfl, r, rfl, hs⟩)
      · exact yields_pure.mpr ⟨rfl, rfl⟩
    | @comma _ s₁ t s₂ ts _ hs ht hts =>
      obtain ⟨c, s', hs₁, hc⟩ := ht.begins
      obtain ⟨o, s₃, q, ho, h, hq⟩ := (yields_someCell hx hk hs₁).mpr ⟨t, ts, s₂, ht, hts, hd⟩
      refine ⟨q, yields_bind.mpr ⟨o, s₃, yields_bind.mpr ⟨true, c :: s', ?_, ho⟩, h⟩, hq⟩
      exact yields_hasNextItem.mpr (.inr ⟨rfl, s₁, c, s', rfl, hs, hs₁, hc.ne_close⟩)

theorem refinesCells_firstCell (hx : Refines x d) (hk : ∀ o, RefinesRest (k o) (e o)) :
    RefinesCells (firstCell x >>= k) (cell? d e) := by
  intro s b r
  simp only [spells_array_iff]
  constructor
  · rintro ⟨q, h, hq⟩
    obtain ⟨o, s₁, ho, h⟩ := yields_bind.mp h
    obtain ⟨more, s₂, hmore, ho⟩ := yields_bind.mp ho
    obtain ⟨c, s', rfl, hs, hb⟩ := yields_hasFirstItem.mp hmore
    cases more with
    | false =>
      cases hb.mp rfl
      obtain ⟨rfl, rfl⟩ := yields_pure.mp ho
      obtain ⟨rfl, hd⟩ := (yields_noCell (d := d) hk).mp ⟨q, h, hq⟩
      exact ⟨[], .inl ⟨rfl, hs⟩, hd⟩
    | true =>
      obtain ⟨t, ts, s₃, ht, hts, hd⟩ := (yields_someCell hx hk hs).mp ⟨o, s₁, q, ho, h, hq⟩
      exact ⟨t :: ts, .inr ⟨t, ts, s₃, rfl, ht, hts⟩, hd⟩
  · rintro ⟨ts, ⟨rfl, hs⟩ | ⟨t, ts, s₁, rfl, ht, hts⟩, hd⟩
    · obtain ⟨q, h, hq⟩ := (yields_noCell hk).mpr ⟨rfl, hd⟩
      refine ⟨q, yields_bind.mpr ⟨none, _, yields_bind.mpr ⟨false, ']' :: r, ?_, ?_⟩, h⟩, hq⟩
      · exact yields_hasFirstItem.mpr ⟨']', r, rfl, hs, by simp⟩
      · exact yields_pure.mpr ⟨rfl, rfl⟩
    · obtain ⟨c, s', hs, hc⟩ := ht.begins
      obtain ⟨o, s₂, q, ho, h, hq⟩ := (yields_someCell hx hk hs).mpr ⟨t, ts, s₁, ht, hts, hd⟩
      refine ⟨q, yields_bind.mpr ⟨o, s₂, yields_bind.mpr ⟨true, c :: s', ?_, ho⟩, h⟩, hq⟩
      exact yields_hasFirstItem.mpr ⟨c, s', rfl, hs, by simpa using hc.ne_close⟩

end Cells

theorem cell?_need? {d : Tree → Option α} {k : α → List Tree → Option β} :
    cell? d (fun o ts => o.bind fun a => k a ts) = need? d k := by
  funext ts
  cases ts <;> rfl

theorem refinesRest_need {index : Nat} {expected : String} {x : Reader α} {d : Tree → Option α}
    {k : α → Reader β} {e : α → List Tree → Option β} (hx : Refines x d)
    (hk : ∀ a, RefinesRest (k a) (e a)) :
    RefinesRest (nextCell x >>= fun o => required index expected o >>= k) (need? d e) := by
  rw [← cell?_need?]
  exact refinesRest_nextCell hx fun _ => refinesRest_required hk

theorem refinesCells_need {index : Nat} {expected : String} {x : Reader α} {d : Tree → Option α}
    {k : α → Reader β} {e : α → List Tree → Option β} (hx : Refines x d)
    (hk : ∀ a, RefinesRest (k a) (e a)) :
    RefinesCells (firstCell x >>= fun o => required index expected o >>= k) (need? d e) := by
  rw [← cell?_need?]
  exact refinesCells_firstCell hx fun _ => refinesRest_required hk

-- ---------------------------------------------------------------------------
-- Records in object form
-- ---------------------------------------------------------------------------

/-- A reader of one entry, which begins with the quote of its key, against what the entry does to the
state. -/
def RefinesEntry (entry : β → Reader β) (step : β → List Piece × Tree → Option β) : Prop :=
  ∀ {st s st' r}, Yields (entry st) ('"' :: s) st' r ↔
    ∃ k x s₁, Keyed ('"' :: s) k s₁ ∧ Reads s₁ x r ∧ step st (k, x) = some st'

/-- A reader of a colon and a value against what the value does. -/
def RefinesValue (body : Reader β) (d : Tree → Option β) : Prop :=
  ∀ {s b r}, Yields body s b r ↔ ∃ s₁ x, Json.dropBlanks s = ':' :: s₁ ∧ Reads s₁ x r ∧ d x = some b

theorem refinesValue_once {name : String} {seen : Option α} {x : Reader α} {d : Tree → Option α}
    {f : α → β} (hx : Refines x d) :
    RefinesValue (once name seen x >>= fun a => pure (f a)) (fill seen d f) := by
  intro s b r
  cases seen with
  | some a => simp [once, fill]
  | none =>
    simp only [once, yields_bind, yields_pure, yields_colon]
    constructor
    · rintro ⟨a, s₂, ⟨-, s₁, hcolon, ha⟩, rfl, rfl⟩
      obtain ⟨t, ht, hd⟩ := hx.mp ha
      refine ⟨s₁, t, hcolon, ht, ?_⟩
      rw [fill, hd, Option.map_some]
    · rintro ⟨s₁, t, hcolon, ht, hb⟩
      obtain ⟨a, hd, rfl⟩ := Option.map_eq_some_iff.mp hb
      exact ⟨a, r, ⟨(), s₁, hcolon, hx.mpr ⟨t, ht, hd⟩⟩, rfl, rfl⟩

theorem yields_present_bind {name : String} {o : Option α} {k : α → Reader β} {b : β} :
    Yields (present name o >>= k) s b r ↔ ∃ a, o = some a ∧ Yields (k a) s b r := by
  cases o with
  | none => simp [present]
  | some a => simp only [present, yields_pure_bind, Option.some.injEq, exists_eq_left']

theorem yields_skip {u : Unit} : Yields skip s u r ↔ ∃ t, Reads s t r := by
  refine yields_bind.trans ?_
  constructor
  · rintro ⟨t, s₁, ht, h⟩
    obtain ⟨-, rfl⟩ := yields_pure.mp h
    exact ⟨t, yields_tree_lenient.mp ht⟩
  · rintro ⟨t, ht⟩
    exact ⟨t, r, yields_tree_lenient.mpr ht, yields_pure.mpr ⟨rfl, rfl⟩⟩

theorem refinesValue_unknown {b : β} :
    RefinesValue (unknown >>= fun _ => pure b) (fun _ => some b) := by
  intro s b' r
  simp only [unknown, yields_bind, yields_pure, yields_colon, yields_skip]
  constructor
  · rintro ⟨-, s₂, ⟨-, s₁, hcolon, t, ht⟩, rfl, rfl⟩
    exact ⟨s₁, t, hcolon, ht, rfl⟩
  · rintro ⟨s₁, t, hcolon, ht, hb⟩
    exact ⟨(), r, ⟨(), s₁, hcolon, t, ht⟩, Option.some.inj hb, rfl⟩

/-- What an entry does to the state, given what it does by the text of its key. -/
def byName (step : β → String → Tree → Option β) (st : β) (e : List Piece × Tree) : Option β :=
  (Piece.text? e.1).bind fun name => step st name e.2

theorem refinesEntry_key {entry : β → Reader β} {body : β → String → Reader β}
    {step : β → String → Tree → Option β} (hentry : ∀ st, entry st = key >>= body st)
    (h : ∀ st name, RefinesValue (body st name) (step st name)) :
    RefinesEntry entry (byName step) := by
  intro st s st' r
  simp only [hentry, yields_bind, yields_key]
  constructor
  · rintro ⟨name, s₁, ⟨k, hk, hname⟩, hbody⟩
    obtain ⟨s₂, x, hcolon, hx, hstep⟩ := (h st name).mp hbody
    refine ⟨k, x, s₂, ⟨s, s₁, dropBlanks_cons rfl, hk, hcolon⟩, hx, ?_⟩
    rw [byName, hname, Option.bind_some, hstep]
  · rintro ⟨k, x, s₂, ⟨s', s₁, hs, hk, hcolon⟩, hx, hby⟩
    rw [dropBlanks_cons rfl] at hs
    cases hs
    obtain ⟨name, hname, hstep⟩ := Option.bind_eq_some_iff.mp hby
    exact ⟨name, s₁, ⟨k, hk, hname⟩, (h st name).mpr ⟨s₂, x, hcolon, hx, hstep⟩⟩

theorem moreEntries_of_entriesEnd {entry : β → Reader β} {step : β → List Piece × Tree → Option β}
    {st st' : β} {es : List (List Piece × Tree)} (h : RefinesEntry entry step)
    (hes : EntriesEnd s es r) (hst : es.foldlM step st = some st') :
    Yields (moreEntries entry st) s st' ('}' :: r) := by
  induction hes generalizing st with
  | close hs =>
    cases hst
    exact yields_moreEntries.mpr (.inl ⟨rfl, _, rfl, hs⟩)
  | @comma s s₁ k s₂ x s₃ es r hs hk hx _ ih =>
    obtain ⟨st₁, hstep, hst⟩ := foldlM_cons_eq_some.mp hst
    obtain ⟨s₄, s₅, hs₁, hk, hcolon⟩ := hk
    have hentry := h.mpr ⟨k, x, s₂, ⟨s₄, s₅, dropBlanks_cons rfl, hk, hcolon⟩, hx, hstep⟩
    exact yields_moreEntries.mpr (.inr ⟨s₁, s₄, st₁, s₃, hs, hs₁, hentry, ih hst⟩)

theorem yields_moreEntries_iff {entry : β → Reader β} {step : β → List Piece × Tree → Option β}
    {st st' : β} {q : List Char} (h : RefinesEntry entry step) :
    Yields (moreEntries entry st) s st' q ↔
      ∃ es r, q = '}' :: r ∧ EntriesEnd s es r ∧ es.foldlM step st = some st' := by
  constructor
  · intro hy
    induction hn : s.length using Nat.strongRecOn generalizing s st with
    | ind n ih =>
      subst hn
      rcases yields_moreEntries.mp hy with
        ⟨rfl, r, rfl, hs⟩ | ⟨s₁, s₂, st₁, s₃, hs, hs₁, hentry, hmore⟩
      · exact ⟨[], r, rfl, .close hs, rfl⟩
      · have hlt := Nat.lt_of_le_of_lt hentry.length_le (length_lt_behind hs hs₁)
        obtain ⟨es, r, rfl, hes, hst⟩ := ih _ hlt hmore rfl
        obtain ⟨k, x, s₄, hk, hx, hstep⟩ := h.mp hentry
        rw [← hs₁, keyed_dropBlanks] at hk
        exact ⟨(k, x) :: es, r, rfl, .comma hs hk hx hes, foldlM_cons_eq_some.mpr ⟨st₁, hstep, hst⟩⟩
  · rintro ⟨es, r, rfl, hes, hst⟩
    exact moreEntries_of_entriesEnd h hes hst

theorem yields_entries {entry : β → Reader β} {step : β → List Piece × Tree → Option β}
    {st st' : β} {q : List Char} (h : RefinesEntry entry step) :
    Yields (entries entry st) s st' q ↔
      ∃ es r, q = '}' :: r ∧ Spells ('{' :: s) (.value (.object es)) r ∧
        es.foldlM step st = some st' := by
  simp only [spells_object_iff]
  constructor
  · intro hy
    obtain ⟨b, s₁, hfirst, hy⟩ := yields_bind.mp hy
    obtain ⟨s', rfl, hs⟩ := yields_hasFirstEntry.mp hfirst
    cases b with
    | false =>
      obtain ⟨rfl, rfl⟩ := yields_pure.mp hy
      exact ⟨[], s', rfl, .inl ⟨rfl, hs⟩, rfl⟩
    | true =>
      obtain ⟨st₁, s₂, hentry, hmore⟩ := yields_bind.mp hy
      obtain ⟨k, x, s₃, hk, hx, hstep⟩ := h.mp hentry
      obtain ⟨es, r, rfl, hes, hst⟩ := (yields_moreEntries_iff h).mp hmore
      change dropBlanks s = '"' :: s' at hs
      rw [← hs, keyed_dropBlanks] at hk
      exact ⟨(k, x) :: es, r, rfl, .inr ⟨k, x, es, s₃, s₂, rfl, hk, hx, hes⟩,
        foldlM_cons_eq_some.mpr ⟨st₁, hstep, hst⟩⟩
  · rintro ⟨es, r, rfl, ⟨rfl, hs⟩ | ⟨k, x, es, s₁, s₂, rfl, hk, hx, hes⟩, hst⟩
    · cases hst
      exact yields_bind.mpr ⟨false, '}' :: r, yields_hasFirstEntry.mpr ⟨r, rfl, hs⟩,
        yields_pure.mpr ⟨rfl, rfl⟩⟩
    · obtain ⟨st₁, hstep, hst⟩ := foldlM_cons_eq_some.mp hst
      obtain ⟨s₃, s₄, hs, hk, hcolon⟩ := hk
      have hentry := h.mpr ⟨k, x, s₁, ⟨s₃, s₄, dropBlanks_cons rfl, hk, hcolon⟩, hx, hstep⟩
      exact yields_bind.mpr ⟨true, '"' :: s₃, yields_hasFirstEntry.mpr ⟨s₃, rfl, hs⟩,
        yields_bind.mpr ⟨st₁, s₂, hentry, moreEntries_of_entriesEnd h hes hst⟩⟩

theorem refinesFields_entries {entry : β → Reader β} {step : β → List Piece × Tree → Option β}
    {st : β} {k : β → Reader α} {d : β → Option α} (h : RefinesEntry entry step)
    (hk : ∀ st s a q, Yields (k st) s a q ↔ d st = some a ∧ s = q) :
    RefinesFields (entries entry st >>= k) (fun es => (es.foldlM step st).bind d) := by
  intro s a r
  simp only [yields_bind, yields_entries h, hk]
  constructor
  · rintro ⟨q, ⟨st', s₁, ⟨es, r', rfl, hes, hst⟩, hd, rfl⟩, hq⟩
    rw [follows_closeObject.dropBlanks_eq] at hq
    cases hq
    refine ⟨es, hes, ?_⟩
    rw [hst]
    exact hd
  · rintro ⟨es, hes, hd⟩
    obtain ⟨st', hst, hd⟩ := Option.bind_eq_some_iff.mp hd
    exact ⟨'}' :: r, ⟨st', '}' :: r, ⟨es, r, rfl, hes, hst⟩, hd, rfl⟩,
      follows_closeObject.dropBlanks_eq⟩

-- ---------------------------------------------------------------------------
-- Both forms
-- ---------------------------------------------------------------------------

/-- A record in either form. -/
def record? (cells : List Tree → Option α) (fields : List (List Piece × Tree) → Option α) :
    Tree → Option α
  | .array xs => cells xs
  | .object es => fields es
  | _ => none

theorem refines_record {expected : String} {cells fields : Reader α} {dc : List Tree → Option α}
    {df : List (List Piece × Tree) → Option α} (hcells : RefinesCells cells dc)
    (hfields : RefinesFields fields df) :
    Refines (record expected (some (cells, fields))) (record? dc df) := by
  intro s a r
  rw [record, yields_token_bind]
  cases hs : dropBlanks s with
  | nil => simp [not_reads_of_dropBlanks_nil hs]
  | cons c s' =>
    rw [List.head?_cons]
    split
    · next h => cases h
    · next h =>
      cases h
      simp only [reads_array hs, Option.map_some, enter, yields_bind, yields_advance, yields_pure,
        yields_closeArray]
      constructor
      · rintro ⟨-, s₁, rfl, a, q, ha, -, r', hclose, rfl, rfl⟩
        obtain ⟨ts, hts, hd⟩ := hcells.mp ⟨q, ha, hclose⟩
        exact ⟨.array ts, ⟨ts, rfl, hts⟩, hd⟩
      · rintro ⟨t, ⟨ts, rfl, hts⟩, hd⟩
        obtain ⟨q, ha, hclose⟩ := hcells.mpr ⟨ts, hts, hd⟩
        exact ⟨(), s', rfl, a, q, ha, (), r, hclose, rfl, rfl⟩
    · next h =>
      cases h
      simp only [reads_object hs, Option.map_some, enter, yields_bind, yields_advance, yields_pure,
        yields_closeObject]
      constructor
      · rintro ⟨-, s₁, rfl, a, q, ha, -, r', hclose, rfl, rfl⟩
        obtain ⟨es, hes, hd⟩ := hfields.mp ⟨q, ha, hclose⟩
        exact ⟨.object es, ⟨es, rfl, hes⟩, hd⟩
      · rintro ⟨t, ⟨es, rfl, hes⟩, hd⟩
        obtain ⟨q, ha, hclose⟩ := hfields.mpr ⟨es, hes, hd⟩
        exact ⟨(), s', rfl, a, q, ha, (), r, hclose, rfl, rfl⟩
    · next hbracket hbrace h =>
      cases h
      constructor
      · intro hy
        exact absurd hy not_yields_mismatch
      · rintro ⟨t, ht, ha⟩
        cases t with
        | array ts => exact (hbracket (ht.begins_with hs)).elim
        | object es => exact (hbrace (ht.begins_with hs)).elim
        | null | bool | string | number => cases ha

/-- Without room for a bracket there is no record. -/
theorem refines_record_none {expected : String} :
    Refines (record (α := α) expected none) (fun _ => none) := by
  intro s a r
  rw [record, yields_token_bind]
  constructor
  · intro h
    split at h
    · exact absurd h not_yields_refuse
    · exact absurd h not_yields_refuse
    · exact absurd h not_yields_refuse
    · exact absurd h not_yields_mismatch
  · rintro ⟨t, -, ha⟩
    cases ha

-- ---------------------------------------------------------------------------
-- Whole texts
-- ---------------------------------------------------------------------------

theorem yields_finish {u : Unit} : Yields finish s u r ↔ dropBlanks s = [] ∧ r = [] := by
  rw [finish, yields_token_bind]
  cases hs : dropBlanks s with
  | nil => simp [eq_comm]
  | cons c s' => simp

theorem document_iff {text : String} {t : Tree} :
    Document text t ↔ ∃ r, Reads text.toList t r ∧ dropBlanks r = [] :=
  spells_element_iff (fun _ h => nomatch h)

theorem document_unique {text : String} {t t' : Tree} (h : Document text t) (h' : Document text t') :
    t = t' := by
  obtain ⟨r, ht, -⟩ := document_iff.mp h
  obtain ⟨r', ht', -⟩ := document_iff.mp h'
  exact ((yields_tree_lenient.mpr ht).unique (yields_tree_lenient.mpr ht')).1

/-- A whole text is read where it is one document that decodes. -/
theorem run_eq_ok_iff {x : Reader α} {d : Tree → Option α} {text : String} {a : α} (hx : Refines x d) :
    x.run text = .ok a ↔ ∃ t, Document text t ∧ d t = some a := by
  have hrun : x.run text = .ok a ↔ ∃ q, Yields (do let a ← x; finish; return a) text.toList a q := by
    unfold run
    constructor
    · intro h
      split at h
      · cases h
      · next t ht =>
        cases h
        exact ⟨t.rest, t.rest_le, ht⟩
    · rintro ⟨q, h, hq⟩
      rw [hq]
  simp only [hrun, yields_bind, yields_pure, yields_finish, document_iff]
  constructor
  · rintro ⟨q, a', r, ha, -, -, ⟨hr, rfl⟩, rfl, rfl⟩
    obtain ⟨t, ht, hd⟩ := hx.mp ha
    exact ⟨t, ⟨r, ht, hr⟩, hd⟩
  · rintro ⟨t, ⟨r, ht, hr⟩, hd⟩
    exact ⟨[], a, r, hx.mpr ⟨t, ht, hd⟩, (), [], ⟨hr, rfl⟩, rfl, rfl⟩

end ImportAtlas.Json.Reader
