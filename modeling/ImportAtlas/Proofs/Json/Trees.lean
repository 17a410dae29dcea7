-- SUMMARY: The reader of trees takes exactly the values that the grammar spells, as far as its mode keeps them.
import ImportAtlas.Proofs.Json.Containers

/-! # Trees

A value that is passed over only has to be grammatical. A value that is kept also has to pass
`Tree.keep?`: it nests within the room there is, its numbers fit binary64 and its surrogates stand in
pairs. The reader of trees takes a value exactly where the grammar reads one that its mode keeps. -/

namespace ImportAtlas.Json

/-- Whether a number is kept. -/
def Mode.admits : Mode → Number → Bool
  | lenient, _ => true
  | strict _, n => n.fits

/-- A string as it is kept: in characters only, if it is looked at closely. -/
def Mode.string? : Mode → List Piece → Option (List Piece)
  | lenient, ps => some ps
  | strict _, ps => (Piece.chars? ps).map (·.map .char)

mutual

/-- The tree as it is kept, if it is. -/
def Tree.keep? (m : Mode) : Tree → Option Tree
  | .null => some .null
  | .bool b => some (.bool b)
  | .number n => if m.admits n then some (.number n) else none
  | .string ps => (m.string? ps).map .string
  | .array xs =>
    match m.inner? with
    | none => none
    | some m => (keepItems? m xs).map .array
  | .object es =>
    match m.inner? with
    | none => none
    | some m => (keepEntries? m es).map .object

def Tree.keepItems? (m : Mode) : List Tree → Option (List Tree)
  | [] => some []
  | x :: xs => do return (← keep? m x) :: (← keepItems? m xs)

def Tree.keepEntries? (m : Mode) : List (List Piece × Tree) → Option (List (List Piece × Tree))
  | [] => some []
  | (k, x) :: es => do return (← m.string? k, ← keep? m x) :: (← keepEntries? m es)

end

mutual

theorem Tree.keep?_lenient : (t : Tree) → t.keep? .lenient = some t
  | .null => rfl
  | .bool _ => rfl
  | .number _ => rfl
  | .string _ => rfl
  | .array xs => by
    rw [keep?]
    simp only [Mode.inner?, keepItems?_lenient xs, Option.map_some]
  | .object es => by
    rw [keep?]
    simp only [Mode.inner?, keepEntries?_lenient es, Option.map_some]

theorem Tree.keepItems?_lenient : (xs : List Tree) → keepItems? .lenient xs = some xs
  | [] => rfl
  | x :: xs => by
    rw [keepItems?, keep?_lenient x, keepItems?_lenient xs]
    rfl

theorem Tree.keepEntries?_lenient :
    (es : List (List Piece × Tree)) → keepEntries? .lenient es = some es
  | [] => rfl
  | (k, x) :: es => by
    rw [keepEntries?, keep?_lenient x, keepEntries?_lenient es]
    rfl

end

namespace Tree

variable {m : Mode}

theorem keepItems?_cons {x : Tree} {xs ys : List Tree} : keepItems? m (x :: xs) = some ys ↔
    ∃ y ys', x.keep? m = some y ∧ keepItems? m xs = some ys' ∧ ys = y :: ys' := by
  rw [keepItems?]
  cases hx : x.keep? m with
  | none => simp
  | some y =>
    cases hxs : keepItems? m xs with
    | none => simp
    | some ys' => simp [eq_comm]

theorem keepEntries?_cons {k : List Piece} {x : Tree} {es fs : List (List Piece × Tree)} :
    keepEntries? m ((k, x) :: es) = some fs ↔ ∃ k' y fs', m.string? k = some k' ∧
      x.keep? m = some y ∧ keepEntries? m es = some fs' ∧ fs = (k', y) :: fs' := by
  rw [keepEntries?]
  cases hk : m.string? k with
  | none => simp
  | some k' =>
    cases hx : x.keep? m with
    | none => simp
    | some y =>
      cases hes : keepEntries? m es with
      | none => simp
      | some fs' => simp [eq_comm]

theorem keep?_array {xs : List Tree} {t : Tree} : (Tree.array xs).keep? m = some t ↔
    ∃ m' ys, m.inner? = some m' ∧ keepItems? m' xs = some ys ∧ t = .array ys := by
  rw [keep?]
  cases hm : m.inner? with
  | none => simp
  | some m' =>
    simp only [Option.some.injEq, exists_and_left, exists_eq_left', Option.map_eq_some_iff]
    simp only [eq_comm]

theorem keep?_object {es : List (List Piece × Tree)} {t : Tree} : (Tree.object es).keep? m = some t ↔
    ∃ m' fs, m.inner? = some m' ∧ keepEntries? m' es = some fs ∧ t = .object fs := by
  rw [keep?]
  cases hm : m.inner? with
  | none => simp
  | some m' =>
    simp only [Option.some.injEq, exists_and_left, exists_eq_left', Option.map_eq_some_iff]
    simp only [eq_comm]

theorem keep?_number {n : Number} {t : Tree} :
    (Tree.number n).keep? m = some t ↔ m.admits n = true ∧ t = .number n := by
  rw [keep?]
  cases m.admits n with
  | true => simp [eq_comm]
  | false => simp

theorem keep?_string {ps : List Piece} {t : Tree} :
    (Tree.string ps).keep? m = some t ↔ ∃ ps', m.string? ps = some ps' ∧ t = .string ps' := by
  rw [keep?, Option.map_eq_some_iff]
  simp only [eq_comm]

end Tree

namespace Reader

/-- What the reader of trees does, given the text without the blanks in front. -/
inductive TreeStep (m : Mode) : List Char → Tree → List Char → Prop where
  | null {s r} (h : s = ['u', 'l', 'l'] ++ r) : TreeStep m ('n' :: s) .null r
  | true {s r} (h : s = ['r', 'u', 'e'] ++ r) : TreeStep m ('t' :: s) (.bool true) r
  | false {s r} (h : s = ['a', 'l', 's', 'e'] ++ r) : TreeStep m ('f' :: s) (.bool false) r
  | number {c s n r} (hc : c = '-' ∨ isDigit c = Bool.true) (h : Yields m.number (c :: s) n r) :
      TreeStep m (c :: s) (.number n) r
  | string {s ps r} (h : Yields m.string s ps r) : TreeStep m ('"' :: s) (.string ps) r
  | emptyArray {s r m'} (hm : m.inner? = some m') (h : dropBlanks s = ']' :: r) :
      TreeStep m ('[' :: s) (.array []) r
  | array {s c s₁ x s₂ xs r m'} (hm : m.inner? = some m') (h : dropBlanks s = c :: s₁) (hc : c ≠ ']')
      (hx : Yields (tree m') (c :: s₁) x s₂) (hxs : Yields (treeItems m') s₂ xs r) :
      TreeStep m ('[' :: s) (.array (x :: xs)) r
  | emptyObject {s r m'} (hm : m.inner? = some m') (h : dropBlanks s = '}' :: r) :
      TreeStep m ('{' :: s) (.object []) r
  | object {s s₁ k s₂ x s₃ es r m'} (hm : m.inner? = some m') (h : dropBlanks s = '"' :: s₁)
      (hk : Yields (treeKey m') ('"' :: s₁) k s₂) (hx : Yields (tree m') s₂ x s₃)
      (hes : Yields (treeEntries m') s₃ es r) : TreeStep m ('{' :: s) (.object ((k, x) :: es)) r

variable {s r : List Char} {m : Mode}

-- ---------------------------------------------------------------------------
-- Scalars, as closely as the mode asks
-- ---------------------------------------------------------------------------

theorem yields_modeNumber {n : Number} :
    Yields m.number s n r ↔ Numeral s n r ∧ Stops n r ∧ m.admits n = true := by
  cases m with
  | lenient =>
    rw [Mode.number, yields_numeral]
    simp [Mode.admits]
  | strict room =>
    rw [Mode.number, number]
    simp only [yields_bind, yields_numeral, Mode.admits]
    constructor
    · rintro ⟨n', r₁, ⟨hn, hstop⟩, h⟩
      cases hfits : n'.fits with
      | true =>
        rw [hfits, if_pos rfl, yields_pure] at h
        obtain ⟨rfl, rfl⟩ := h
        exact ⟨hn, hstop, hfits⟩
      | false =>
        rw [hfits] at h
        exact absurd h not_yields_fail
    · rintro ⟨hn, hstop, hfits⟩
      refine ⟨n, r, ⟨hn, hstop⟩, ?_⟩
      rw [hfits, if_pos rfl, yields_pure]
      exact ⟨rfl, rfl⟩

theorem yields_modeString {ps : List Piece} :
    Yields m.string s ps r ↔ ∃ ps₀, Pieces s ps₀ ('"' :: r) ∧ m.string? ps₀ = some ps := by
  cases m with
  | lenient =>
    refine yields_pieceTail.trans ?_
    constructor
    · intro h
      exact ⟨ps, h, rfl⟩
    · rintro ⟨ps₀, h, hps⟩
      cases hps
      exact h
  | strict room =>
    simp only [Mode.string, yields_bind, yields_pure, yields_textBody, Mode.string?, Piece.text?,
      Option.map_eq_some_iff]
    constructor
    · rintro ⟨text, r₁, ⟨ps₀, hps₀, cs, hcs, rfl⟩, rfl, rfl⟩
      exact ⟨ps₀, hps₀, cs, hcs, by rw [String.toList_ofList]⟩
    · rintro ⟨ps₀, hps₀, cs, hcs, rfl⟩
      exact ⟨String.ofList cs, r, ⟨ps₀, hps₀, cs, hcs, rfl⟩, by rw [String.toList_ofList], rfl⟩

theorem yields_treeKey {k : List Piece} : Yields (treeKey m) ('"' :: s) k r ↔
    ∃ k₀ s₁, Pieces s k₀ ('"' :: s₁) ∧ dropBlanks s₁ = ':' :: r ∧ m.string? k₀ = some k := by
  simp only [treeKey, yields_bind, yields_pure, yields_advance, yields_modeString, yields_colon]
  constructor
  · rintro ⟨-, s₁, rfl, k', s₂, ⟨k₀, hk₀, hk⟩, -, s₃, hcolon, rfl, rfl⟩
    exact ⟨k₀, s₂, hk₀, hcolon, hk⟩
  · rintro ⟨k₀, s₁, hk₀, hcolon, hk⟩
    exact ⟨(), s, rfl, k, s₁, ⟨k₀, hk₀, hk⟩, (), r, hcolon, rfl, rfl⟩

-- ---------------------------------------------------------------------------
-- One step of the reader
-- ---------------------------------------------------------------------------

theorem yields_treeItems {xs : List Tree} : Yields (treeItems m) s xs r ↔
    (xs = [] ∧ dropBlanks s = ']' :: r) ∨ ∃ s₁ c s₂ x s₃ xs', xs = x :: xs' ∧
      dropBlanks s = ',' :: s₁ ∧ dropBlanks s₁ = c :: s₂ ∧ c ≠ ']' ∧ Yields (tree m) (c :: s₂) x s₃ ∧
      Yields (treeItems m) s₃ xs' r := by
  constructor
  · rintro ⟨h, he⟩
    rw [treeItems] at he
    split at he
    · cases he
    · next hstop =>
      obtain ⟨r', rfl, hs⟩ := close_of_afterItem hstop
      cases he
      exact .inl ⟨rfl, hs⟩
    · next hmore =>
      obtain ⟨s₁, c, s₂, rfl, hs, hs₁, hc⟩ := comma_of_afterItem hmore
      split at he
      · cases he
      · next x s₃ h₃ hx =>
        split at he
        · cases he
        · next xs' r₄ h₄ hxs =>
          cases he
          exact .inr ⟨s₁, c, s₂, x, s₃, xs', rfl, hs, hs₁, hc, ⟨h₃, hx⟩, ⟨h₄, hxs⟩⟩
  · rintro (⟨rfl, hs⟩ | ⟨s₁, c, s₂, x, s₃, xs', rfl, hs, hs₁, hc, ⟨h₃, hx⟩, ⟨h₄, hxs⟩⟩)
    · obtain ⟨h, hstop⟩ := afterItem_of_close hs
      refine ⟨length_tail_le_of_le h, ?_⟩
      rw [treeItems, hstop]
      rfl
    · obtain ⟨h, hmore⟩ := afterItem_of_comma hs hs₁ hc
      refine ⟨Step.rest_le_of_more h h₃ h₄, ?_⟩
      rw [treeItems, hmore]
      simp only [hx, hxs]

theorem yields_treeEntries {es : List (List Piece × Tree)} : Yields (treeEntries m) s es r ↔
    (es = [] ∧ dropBlanks s = '}' :: r) ∨ ∃ s₁ s₂ k s₃ x s₄ es', es = (k, x) :: es' ∧
      dropBlanks s = ',' :: s₁ ∧ dropBlanks s₁ = '"' :: s₂ ∧ Yields (treeKey m) ('"' :: s₂) k s₃ ∧
      Yields (tree m) s₃ x s₄ ∧ Yields (treeEntries m) s₄ es' r := by
  constructor
  · rintro ⟨h, he⟩
    rw [treeEntries] at he
    split at he
    · cases he
    · next hstop =>
      obtain ⟨r', rfl, hs⟩ := close_of_afterEntry hstop
      cases he
      exact .inl ⟨rfl, hs⟩
    · next hmore =>
      obtain ⟨s₁, s₂, rfl, hs, hs₁⟩ := comma_of_afterEntry hmore
      split at he
      · cases he
      · next k s₃ h₃ hk =>
        split at he
        · cases he
        · next x s₄ h₄ hx =>
          split at he
          · cases he
          · next es' r₅ h₅ hes =>
            cases he
            exact .inr ⟨s₁, s₂, k, s₃, x, s₄, es', rfl, hs, hs₁, ⟨h₃, hk⟩, ⟨h₄, hx⟩, ⟨h₅, hes⟩⟩
  · rintro (⟨rfl, hs⟩ | ⟨s₁, s₂, k, s₃, x, s₄, es', rfl, hs, hs₁, ⟨h₃, hk⟩, ⟨h₄, hx⟩, ⟨h₅, hes⟩⟩)
    · obtain ⟨h, hstop⟩ := afterEntry_of_close hs
      refine ⟨length_tail_le_of_le h, ?_⟩
      rw [treeEntries, hstop]
      rfl
    · obtain ⟨h, hmore⟩ := afterEntry_of_comma hs hs₁
      refine ⟨by omega, ?_⟩
      rw [treeEntries, hmore]
      simp only [hk, hx, hes]

theorem treeStep_of_yields {t : Tree} (h : Yields (tree m) s t r) : TreeStep m (dropBlanks s) t r := by
  obtain ⟨h, he⟩ := h
  rw [tree] at he
  split at he
  · cases he
  next c s' hs =>
  rw [hs]
  split at he
  · next hc =>
    subst hc
    split at he
    · cases he
    · next r' h' hw =>
      cases he
      exact .null (yields_word.mp ⟨h', hw⟩)
  split at he
  · next hc =>
    subst hc
    split at he
    · cases he
    · next r' h' hw =>
      cases he
      exact .true (yields_word.mp ⟨h', hw⟩)
  split at he
  · next hc =>
    subst hc
    split at he
    · cases he
    · next r' h' hw =>
      cases he
      exact .false (yields_word.mp ⟨h', hw⟩)
  split at he
  · next hc =>
    split at he
    · cases he
    · next n r' h' hn =>
      cases he
      exact .number hc ⟨h', hn⟩
  split at he
  · next hc =>
    subst hc
    split at he
    · cases he
    · next ps r' h' hps =>
      cases he
      exact .string ⟨h', hps⟩
  split at he
  · next hc =>
    subst hc
    split at he
    · cases he
    next m' hm =>
    split at he
    · cases he
    · next r₁ h₁ hfirst =>
      obtain ⟨c, r', rfl, hs', hb⟩ := yields_hasFirstItem.mp ⟨h₁, hfirst⟩
      cases he
      rw [hb.mp rfl] at hs'
      exact .emptyArray hm hs'
    · next r₁ h₁ hfirst =>
      obtain ⟨c, r', rfl, hs', hb⟩ := yields_hasFirstItem.mp ⟨h₁, hfirst⟩
      split at he
      · cases he
      · next x r₂ h₂ hx =>
        split at he
        · cases he
        · next xs r₃ h₃ hxs =>
          cases he
          have hc : c ≠ ']' := by
            intro hc
            cases hb.mpr hc
          exact .array hm hs' hc ⟨h₂, hx⟩ ⟨h₃, hxs⟩
  split at he
  · next hc =>
    subst hc
    split at he
    · cases he
    next m' hm =>
    split at he
    · cases he
    · next r₁ h₁ hfirst =>
      obtain ⟨r', rfl, hs'⟩ := yields_hasFirstEntry.mp ⟨h₁, hfirst⟩
      cases he
      exact .emptyObject hm hs'
    · next r₁ h₁ hfirst =>
      obtain ⟨r', rfl, hs'⟩ := yields_hasFirstEntry.mp ⟨h₁, hfirst⟩
      split at he
      · cases he
      · next k r₂ h₂ hk =>
        split at he
        · cases he
        · next x r₃ h₃ hx =>
          split at he
          · cases he
          · next es r₄ h₄ hes =>
            cases he
            exact .object hm hs' ⟨h₂, hk⟩ ⟨h₃, hx⟩ ⟨h₄, hes⟩
  · cases he

theorem TreeStep.length_le {t : Tree} (h : TreeStep m s t r) : r.length ≤ s.length := by
  cases h with
  | null h | true h | false h =>
    rw [h, List.length_cons, List.length_append]
    omega
  | number _ h => exact h.length_le
  | string h => exact length_le_cons_of_le _ h.length_le
  | emptyArray _ h | emptyObject _ h =>
    exact length_le_cons_of_le _ (Nat.le_of_lt (length_lt_of_dropBlanks h))
  | array _ h _ hx hxs =>
    have hlen := Nat.le_trans hxs.length_le hx.length_le
    exact length_le_cons_of_le _ (Nat.le_trans hlen (length_le_of_dropBlanks h))
  | object _ h hk hx hes =>
    have hlen := Nat.le_trans hes.length_le (Nat.le_trans hx.length_le hk.length_le)
    exact length_le_cons_of_le _ (Nat.le_trans hlen (length_le_of_dropBlanks h))

theorem yields_of_treeStep {t : Tree} (hstep : TreeStep m (dropBlanks s) t r) :
    Yields (tree m) s t r := by
  have hlen := Nat.le_trans hstep.length_le (length_dropBlanks_le s)
  refine ⟨hlen, ?_⟩
  rw [tree]
  split
  · next hs =>
    rw [hs] at hstep
    cases hstep
  · next c s' hs =>
    rw [hs] at hstep
    cases hstep with
    | null h | true h | false h =>
      obtain ⟨_, hw⟩ := (yields_word (u := ())).mpr h
      simp [hw]
    | number hc h =>
      obtain ⟨_, hn⟩ := h
      have hne : c ≠ 'n' ∧ c ≠ 't' ∧ c ≠ 'f' := by
        refine ⟨?_, ?_, ?_⟩ <;> rintro rfl <;> simp [isDigit] at hc
      simp [hn, hc, hne]
    | string h =>
      obtain ⟨_, hps⟩ := h
      simp [hps, isDigit]
    | emptyArray hm h =>
      obtain ⟨_, hfirst⟩ := (yields_hasFirstItem (b := false)).mpr ⟨']', r, rfl, h, by simp⟩
      simp [hm, hfirst, isDigit]
    | array hm h hc hx hxs =>
      obtain ⟨_, hfirst⟩ := (yields_hasFirstItem (b := true)).mpr ⟨_, _, rfl, h, by simpa using hc⟩
      obtain ⟨_, hx⟩ := hx
      obtain ⟨_, hxs⟩ := hxs
      simp [hm, hfirst, hx, hxs, isDigit]
    | emptyObject hm h =>
      obtain ⟨_, hfirst⟩ := (yields_hasFirstEntry (b := false)).mpr ⟨r, rfl, h⟩
      simp [hm, hfirst, isDigit]
    | object hm h hk hx hes =>
      obtain ⟨_, hfirst⟩ := (yields_hasFirstEntry (b := true)).mpr ⟨_, rfl, h⟩
      obtain ⟨_, hk⟩ := hk
      obtain ⟨_, hx⟩ := hx
      obtain ⟨_, hes⟩ := hes
      simp [hm, hfirst, hk, hx, hes, isDigit]

theorem yields_tree_step {t : Tree} : Yields (tree m) s t r ↔ TreeStep m (dropBlanks s) t r :=
  ⟨treeStep_of_yields, yields_of_treeStep⟩

-- ---------------------------------------------------------------------------
-- The whole reader
-- ---------------------------------------------------------------------------

/-- What the readers of a value, of the items behind an item and of the entries behind an entry take
from `s`. -/
structure Agrees (s : List Char) : Prop where
  tree : ∀ {m t r}, Yields (tree m) s t r ↔ ∃ t₀, Reads s t₀ r ∧ t₀.keep? m = some t
  items : ∀ {m xs r}, Yields (treeItems m) s xs r ↔
    ∃ xs₀, ItemsEnd s xs₀ r ∧ Tree.keepItems? m xs₀ = some xs
  entries : ∀ {m es r}, Yields (treeEntries m) s es r ↔
    ∃ es₀, EntriesEnd s es₀ r ∧ Tree.keepEntries? m es₀ = some es

section Step

variable (ih : ∀ s', s'.length < s.length → Agrees s')
include ih

/-- One item and those behind it. -/
theorem agrees_item {x : Tree} {xs : List Tree} {s₁ s₂ : List Char} {c : Char}
    (hs₁ : dropBlanks s₁ = c :: s₂) (hlt : (c :: s₂).length < s.length) :
    (∃ s₃, Yields (Reader.tree m) (c :: s₂) x s₃ ∧ Yields (treeItems m) s₃ xs r) ↔
      ∃ x₀ xs₀ s₃, Reads s₁ x₀ s₃ ∧ ItemsEnd s₃ xs₀ r ∧
        Tree.keepItems? m (x₀ :: xs₀) = some (x :: xs) := by
  rw [← hs₁] at hlt ⊢
  constructor
  · rintro ⟨s₃, hx, hxs⟩
    obtain ⟨x₀, hx₀, hkeep⟩ := (ih _ hlt).tree.mp hx
    obtain ⟨xs₀, hxs₀, hkeeps⟩ := (ih _ (Nat.lt_of_le_of_lt hx.length_le hlt)).items.mp hxs
    exact ⟨x₀, xs₀, s₃, reads_dropBlanks.mp hx₀, hxs₀,
      Tree.keepItems?_cons.mpr ⟨x, xs, hkeep, hkeeps, rfl⟩⟩
  · rintro ⟨x₀, xs₀, s₃, hx₀, hxs₀, hkeeps⟩
    obtain ⟨x', xs', hkeep, hkeeps', h⟩ := Tree.keepItems?_cons.mp hkeeps
    cases h
    have hx := (ih _ hlt).tree.mpr ⟨x₀, reads_dropBlanks.mpr hx₀, hkeep⟩
    have hxs := (ih _ (Nat.lt_of_le_of_lt hx.length_le hlt)).items.mpr ⟨xs₀, hxs₀, hkeeps'⟩
    exact ⟨s₃, hx, hxs⟩

/-- One entry and those behind it. -/
theorem agrees_entry {k : List Piece} {x : Tree} {es : List (List Piece × Tree)} {s₁ s₂ : List Char}
    (hs₁ : dropBlanks s₁ = '"' :: s₂) (hlt : ('"' :: s₂).length < s.length) :
    (∃ s₃ s₄, Yields (treeKey m) ('"' :: s₂) k s₃ ∧ Yields (Reader.tree m) s₃ x s₄ ∧
        Yields (treeEntries m) s₄ es r) ↔
      ∃ k₀ x₀ es₀ s₃ s₄, Keyed s₁ k₀ s₃ ∧ Reads s₃ x₀ s₄ ∧ EntriesEnd s₄ es₀ r ∧
        Tree.keepEntries? m ((k₀, x₀) :: es₀) = some ((k, x) :: es) := by
  constructor
  · rintro ⟨s₃, s₄, hk, hx, hes⟩
    have hlt₃ := Nat.lt_of_le_of_lt hk.length_le hlt
    obtain ⟨k₀, s₅, hk₀, hcolon, hkey⟩ := yields_treeKey.mp hk
    obtain ⟨x₀, hx₀, hkeep⟩ := (ih _ hlt₃).tree.mp hx
    obtain ⟨es₀, hes₀, hkeeps⟩ := (ih _ (Nat.lt_of_le_of_lt hx.length_le hlt₃)).entries.mp hes
    exact ⟨k₀, x₀, es₀, s₃, s₄, ⟨s₂, s₅, hs₁, hk₀, hcolon⟩, hx₀, hes₀,
      Tree.keepEntries?_cons.mpr ⟨k, x, es, hkey, hkeep, hkeeps, rfl⟩⟩
  · rintro ⟨k₀, x₀, es₀, s₃, s₄, ⟨s₂', s₅, hs₁', hk₀, hcolon⟩, hx₀, hes₀, hkeeps⟩
    cases hs₁.symm.trans hs₁'
    obtain ⟨k', x', es', hkey, hkeep, hkeeps', h⟩ := Tree.keepEntries?_cons.mp hkeeps
    cases h
    have hk := yields_treeKey.mpr ⟨k₀, s₅, hk₀, hcolon, hkey⟩
    have hlt₃ := Nat.lt_of_le_of_lt hk.length_le hlt
    have hx := (ih _ hlt₃).tree.mpr ⟨x₀, hx₀, hkeep⟩
    have hes := (ih _ (Nat.lt_of_le_of_lt hx.length_le hlt₃)).entries.mpr ⟨es₀, hes₀, hkeeps'⟩
    exact ⟨s₃, s₄, hk, hx, hes⟩

theorem agrees_items {xs : List Tree} : Yields (treeItems m) s xs r ↔
    ∃ xs₀, ItemsEnd s xs₀ r ∧ Tree.keepItems? m xs₀ = some xs := by
  rw [yields_treeItems]
  constructor
  · rintro (⟨rfl, hs⟩ | ⟨s₁, c, s₂, x, s₃, xs', rfl, hs, hs₁, -, hx, hxs⟩)
    · exact ⟨[], .close hs, rfl⟩
    · obtain ⟨x₀, xs₀, s₃, hx₀, hxs₀, hkeeps⟩ :=
        (agrees_item ih hs₁ (length_lt_behind hs hs₁)).mp ⟨s₃, hx, hxs⟩
      exact ⟨x₀ :: xs₀, .comma hs hx₀ hxs₀, hkeeps⟩
  · rintro ⟨xs₀, hxs₀, hkeeps⟩
    cases hxs₀ with
    | close hs =>
      cases hkeeps
      exact .inl ⟨rfl, hs⟩
    | @comma _ s₁ x₀ s₃ xs₀ _ hs hx₀ hxs₀ =>
      obtain ⟨x, xs', -, -, rfl⟩ := Tree.keepItems?_cons.mp hkeeps
      obtain ⟨c, s₂, hs₁, hc⟩ := hx₀.begins
      obtain ⟨s₃, hx, hxs⟩ :=
        (agrees_item ih hs₁ (length_lt_behind hs hs₁)).mpr ⟨x₀, xs₀, s₃, hx₀, hxs₀, hkeeps⟩
      exact .inr ⟨s₁, c, s₂, x, s₃, xs', rfl, hs, hs₁, hc.ne_close, hx, hxs⟩

theorem agrees_entries {es : List (List Piece × Tree)} : Yields (treeEntries m) s es r ↔
    ∃ es₀, EntriesEnd s es₀ r ∧ Tree.keepEntries? m es₀ = some es := by
  rw [yields_treeEntries]
  constructor
  · rintro (⟨rfl, hs⟩ | ⟨s₁, s₂, k, s₃, x, s₄, es', rfl, hs, hs₁, hk, hx, hes⟩)
    · exact ⟨[], .close hs, rfl⟩
    · obtain ⟨k₀, x₀, es₀, s₃, s₄, hk₀, hx₀, hes₀, hkeeps⟩ :=
        (agrees_entry ih hs₁ (length_lt_behind hs hs₁)).mp ⟨s₃, s₄, hk, hx, hes⟩
      exact ⟨(k₀, x₀) :: es₀, .comma hs hk₀ hx₀ hes₀, hkeeps⟩
  · rintro ⟨es₀, hes₀, hkeeps⟩
    cases hes₀ with
    | close hs =>
      cases hkeeps
      exact .inl ⟨rfl, hs⟩
    | @comma _ s₁ k₀ s₃ x₀ s₄ es₀ _ hs hk₀ hx₀ hes₀ =>
      obtain ⟨k, x, es', -, -, -, rfl⟩ := Tree.keepEntries?_cons.mp hkeeps
      obtain ⟨s₂, hs₁⟩ := hk₀.begins
      obtain ⟨s₃, s₄, hk, hx, hes⟩ := (agrees_entry ih hs₁ (length_lt_behind hs hs₁)).mpr
        ⟨k₀, x₀, es₀, s₃, s₄, hk₀, hx₀, hes₀, hkeeps⟩
      exact .inr ⟨s₁, s₂, k, s₃, x, s₄, es', rfl, hs, hs₁, hk, hx, hes⟩

theorem exists_reads_of_treeStep {t : Tree} (h : TreeStep m (dropBlanks s) t r) :
    ∃ t₀, Reads s t₀ r ∧ t₀.keep? m = some t := by
  generalize hs : dropBlanks s = q at h
  have hspell : ∀ {t₀}, Spells q (.value t₀) r → (∀ n, t₀ ≠ .number n) → Reads s t₀ r := by
    intro t₀ h₀ hn
    exact ⟨hs ▸ h₀, fun n hnum => absurd hnum (hn n)⟩
  cases h with
  | null h => exact ⟨.null, hspell (h ▸ .null) (fun _ => nofun), rfl⟩
  | true h => exact ⟨.bool true, hspell (h ▸ .true) (fun _ => nofun), rfl⟩
  | false h => exact ⟨.bool false, hspell (h ▸ .false) (fun _ => nofun), rfl⟩
  | @number c s' n _ hc h =>
    obtain ⟨hn, hstop, hfits⟩ := yields_modeNumber.mp h
    refine ⟨.number n, ⟨hs ▸ .number hn, ?_⟩, Tree.keep?_number.mpr ⟨hfits, rfl⟩⟩
    rintro n' ⟨⟩
    exact hstop
  | string h =>
    obtain ⟨ps₀, hps₀, hps⟩ := yields_modeString.mp h
    exact ⟨.string ps₀, hspell (.string ⟨_, rfl, hps₀⟩) (fun _ => nofun),
      Tree.keep?_string.mpr ⟨_, hps, rfl⟩⟩
  | emptyArray hm h =>
    exact ⟨.array [], hspell (spells_array_iff.mpr (.inl ⟨rfl, h⟩)) (fun _ => nofun),
      Tree.keep?_array.mpr ⟨_, [], hm, rfl, rfl⟩⟩
  | @array s' c s₁ x s₂ xs _ m' hm h hc hx hxs =>
    obtain ⟨x₀, xs₀, s₂, hx₀, hxs₀, hkeeps⟩ :=
      (agrees_item ih h (length_lt_behind hs h)).mp ⟨s₂, hx, hxs⟩
    exact ⟨.array (x₀ :: xs₀),
      hspell (spells_array_iff.mpr (.inr ⟨x₀, xs₀, s₂, rfl, hx₀, hxs₀⟩)) (fun _ => nofun),
      Tree.keep?_array.mpr ⟨m', x :: xs, hm, hkeeps, rfl⟩⟩
  | emptyObject hm h =>
    exact ⟨.object [], hspell (spells_object_iff.mpr (.inl ⟨rfl, h⟩)) (fun _ => nofun),
      Tree.keep?_object.mpr ⟨_, [], hm, rfl, rfl⟩⟩
  | @object s' s₁ k s₂ x s₃ es _ m' hm h hk hx hes =>
    obtain ⟨k₀, x₀, es₀, s₂, s₃, hk₀, hx₀, hes₀, hkeeps⟩ :=
      (agrees_entry ih h (length_lt_behind hs h)).mp ⟨s₂, s₃, hk, hx, hes⟩
    exact ⟨.object ((k₀, x₀) :: es₀),
      hspell (spells_object_iff.mpr (.inr ⟨k₀, x₀, es₀, s₂, s₃, rfl, hk₀, hx₀, hes₀⟩)) (fun _ => nofun),
      Tree.keep?_object.mpr ⟨m', (k, x) :: es, hm, hkeeps, rfl⟩⟩

theorem treeStep_of_reads {t₀ t : Tree} (h : Reads s t₀ r) (hkeep : t₀.keep? m = some t) :
    TreeStep m (dropBlanks s) t r := by
  obtain ⟨h, hstop⟩ := h
  generalize hs : dropBlanks s = q at h
  cases t₀ with
  | null =>
    cases hkeep
    cases h
    exact .null rfl
  | bool b =>
    cases hkeep
    cases h with
    | true => exact .true rfl
    | false => exact .false rfl
  | number n =>
    obtain ⟨hfits, rfl⟩ := Tree.keep?_number.mp hkeep
    cases h with
    | number hn =>
      obtain ⟨c, s', rfl, hc⟩ := hn.begins
      exact .number hc (yields_modeNumber.mpr ⟨hn, hstop n rfl, hfits⟩)
  | string ps₀ =>
    obtain ⟨ps, hps, rfl⟩ := Tree.keep?_string.mp hkeep
    cases h with
    | string h =>
      obtain ⟨s', rfl, hps₀⟩ := h
      exact .string (yields_modeString.mpr ⟨ps₀, hps₀, hps⟩)
  | array xs₀ =>
    obtain ⟨m', xs, hm, hkeeps, rfl⟩ := Tree.keep?_array.mp hkeep
    obtain ⟨c, s', rfl, rfl⟩ := h.begins
    rcases spells_array_iff.mp h with ⟨rfl, hs'⟩ | ⟨x₀, xs₀, s₂, rfl, hx₀, hxs₀⟩
    · cases hkeeps
      exact .emptyArray hm hs'
    · obtain ⟨x, xs, -, -, rfl⟩ := Tree.keepItems?_cons.mp hkeeps
      obtain ⟨c, s₁, hs', hc⟩ := hx₀.begins
      obtain ⟨s₂, hx, hxs⟩ :=
        (agrees_item ih hs' (length_lt_behind hs hs')).mpr ⟨x₀, xs₀, s₂, hx₀, hxs₀, hkeeps⟩
      exact .array hm hs' hc.ne_close hx hxs
  | object es₀ =>
    obtain ⟨m', es, hm, hkeeps, rfl⟩ := Tree.keep?_object.mp hkeep
    obtain ⟨c, s', rfl, rfl⟩ := h.begins
    rcases spells_object_iff.mp h with ⟨rfl, hs'⟩ | ⟨k₀, x₀, es₀, s₂, s₃, rfl, hk₀, hx₀, hes₀⟩
    · cases hkeeps
      exact .emptyObject hm hs'
    · obtain ⟨k, x, es, -, -, -, rfl⟩ := Tree.keepEntries?_cons.mp hkeeps
      obtain ⟨s₁, hs'⟩ := hk₀.begins
      obtain ⟨s₂, s₃, hk, hx, hes⟩ := (agrees_entry ih hs' (length_lt_behind hs hs')).mpr
        ⟨k₀, x₀, es₀, s₂, s₃, hk₀, hx₀, hes₀, hkeeps⟩
      exact .object hm hs' hk hx hes

end Step

theorem agrees (s : List Char) : Agrees s := by
  induction hn : s.length using Nat.strongRecOn generalizing s with
  | ind n ih =>
    subst hn
    have ih : ∀ s', s'.length < s.length → Agrees s' := fun s' h => ih _ h s' rfl
    refine ⟨?_, agrees_items ih, agrees_entries ih⟩
    intro m t r
    rw [yields_tree_step]
    constructor
    · exact exists_reads_of_treeStep ih
    · rintro ⟨t₀, h, hkeep⟩
      exact treeStep_of_reads ih h hkeep

theorem yields_tree {t : Tree} : Yields (tree m) s t r ↔ ∃ t₀, Reads s t₀ r ∧ t₀.keep? m = some t :=
  (agrees s).tree

/-- A value is passed over exactly where the grammar reads one. -/
theorem yields_tree_lenient {t : Tree} : Yields (tree .lenient) s t r ↔ Reads s t r := by
  rw [yields_tree]
  constructor
  · rintro ⟨t₀, h, hkeep⟩
    rw [Tree.keep?_lenient] at hkeep
    cases hkeep
    exact h
  · intro h
    exact ⟨t, h, t.keep?_lenient⟩

end Reader

end ImportAtlas.Json
