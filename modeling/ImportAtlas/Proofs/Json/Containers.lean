-- SUMMARY: What lies between the items of an array and between the entries of an object, as readers take it.
import ImportAtlas.Proofs.Json.Values

/-! # Containers

One lemma for each thing a reader can meet inside a bracket: the first item or none, the comma and the
next item, the closing bracket. They are about blanks and punctuation only, so they serve every reader
of items and entries. -/

namespace ImportAtlas.Json.Reader

variable {α : Type} {s r : List Char}

-- ---------------------------------------------------------------------------
-- Arrays
-- ---------------------------------------------------------------------------

theorem yields_hasFirstItem {b : Bool} : Yields hasFirstItem s b r ↔
    ∃ c r', r = c :: r' ∧ dropBlanks s = c :: r' ∧ (b = false ↔ c = ']') := by
  rw [hasFirstItem, yields_token_bind]
  cases hs : dropBlanks s with
  | nil => simp
  | cons c s' =>
    rw [List.head?_cons]
    split
    · next h => cases h
    · next h =>
      cases h
      rw [yields_pure]
      constructor
      · rintro ⟨rfl, rfl⟩
        exact ⟨']', s', rfl, rfl, by simp⟩
      · rintro ⟨c, r', rfl, h, hb⟩
        cases h
        exact ⟨(hb.mpr rfl).symm, rfl⟩
    · next hc h =>
      cases h
      rw [yields_pure]
      constructor
      · rintro ⟨rfl, rfl⟩
        exact ⟨c, s', rfl, rfl, by simpa using hc⟩
      · rintro ⟨c', r', rfl, h, hb⟩
        cases h
        cases b with
        | true => exact ⟨rfl, rfl⟩
        | false => exact absurd (hb.mp rfl) hc

theorem close_of_afterItem {q : List Char} {h : q.length ≤ s.length}
    (he : afterItem s = .ok (.stop q h)) : ∃ r, q = ']' :: r ∧ dropBlanks s = ']' :: r := by
  unfold afterItem at he
  split at he
  · cases he
  · next r hs =>
    cases he
    exact ⟨r, rfl, hs⟩
  · split at he <;> cases he
  · cases he

theorem comma_of_afterItem {q : List Char} {h : q.length < s.length}
    (he : afterItem s = .ok (.more q h)) :
    ∃ s₁ c r, q = c :: r ∧ dropBlanks s = ',' :: s₁ ∧ dropBlanks s₁ = c :: r ∧ c ≠ ']' := by
  unfold afterItem at he
  split at he
  · cases he
  · cases he
  · next s₁ hs =>
    split at he
    · cases he
    · cases he
    · next c r hc hs₁ =>
      cases he
      exact ⟨s₁, c, r, rfl, hs, hs₁, hc⟩
  · cases he

theorem afterItem_of_close (hs : dropBlanks s = ']' :: r) :
    ∃ h, afterItem s = .ok (.stop (']' :: r) h) := by
  unfold afterItem
  split
  · next hs' => cases hs.symm.trans hs'
  · next hs' =>
    cases hs.symm.trans hs'
    exact ⟨length_le_of_dropBlanks hs, rfl⟩
  · next hs' => cases hs.symm.trans hs'
  · next hclose _ => exact absurd hs (hclose r)

theorem afterItem_of_comma {s₁ : List Char} {c : Char} (hs : dropBlanks s = ',' :: s₁)
    (hs₁ : dropBlanks s₁ = c :: r) (hc : c ≠ ']') : ∃ h, afterItem s = .ok (.more (c :: r) h) := by
  unfold afterItem
  split
  · next hs' => cases hs.symm.trans hs'
  · next hs' => cases hs.symm.trans hs'
  · next hs' =>
    cases hs.symm.trans hs'
    split
    · next hs₁' => cases hs₁.symm.trans hs₁'
    · next hs₁' =>
      cases hs₁.symm.trans hs₁'
      exact absurd rfl hc
    · next hs₁' =>
      cases hs₁.symm.trans hs₁'
      exact ⟨length_lt_behind hs hs₁, rfl⟩
  · next hcomma => exact absurd hs (hcomma s₁)

theorem yields_hasNextItem {b : Bool} {q : List Char} : Yields hasNextItem s b q ↔
    (b = false ∧ ∃ r, q = ']' :: r ∧ dropBlanks s = ']' :: r) ∨
      (b = true ∧ ∃ s₁ c r,
        q = c :: r ∧ dropBlanks s = ',' :: s₁ ∧ dropBlanks s₁ = c :: r ∧ c ≠ ']') := by
  constructor
  · rintro ⟨h, he⟩
    unfold hasNextItem at he
    split at he
    · cases he
    · next hstop =>
      cases he
      exact .inl ⟨rfl, close_of_afterItem hstop⟩
    · next hmore =>
      cases he
      exact .inr ⟨rfl, comma_of_afterItem hmore⟩
  · rintro (⟨rfl, r, rfl, hs⟩ | ⟨rfl, s₁, c, r, rfl, hs, hs₁, hc⟩)
    · obtain ⟨h, hstop⟩ := afterItem_of_close hs
      exact ⟨h, by simp only [hasNextItem, hstop]⟩
    · obtain ⟨h, hmore⟩ := afterItem_of_comma hs hs₁ hc
      exact ⟨Nat.le_of_lt h, by simp only [hasNextItem, hmore]⟩

theorem yields_moreItems {item : Reader α} {as : List α} {q : List Char} :
    Yields (moreItems item) s as q ↔ (as = [] ∧ ∃ r, q = ']' :: r ∧ dropBlanks s = ']' :: r) ∨
      ∃ s₁ c s₂ a s₃ as', as = a :: as' ∧ dropBlanks s = ',' :: s₁ ∧ dropBlanks s₁ = c :: s₂ ∧
        c ≠ ']' ∧ Yields item (c :: s₂) a s₃ ∧ Yields (moreItems item) s₃ as' q := by
  constructor
  · rintro ⟨h, he⟩
    rw [moreItems] at he
    split at he
    · cases he
    · next hstop =>
      cases he
      exact .inl ⟨rfl, close_of_afterItem hstop⟩
    · next hmore =>
      obtain ⟨s₁, c, s₂, rfl, hs, hs₁, hc⟩ := comma_of_afterItem hmore
      split at he
      · cases he
      · next a s₃ h₃ ha =>
        split at he
        · cases he
        · next as' r₄ h₄ has =>
          cases he
          exact .inr ⟨s₁, c, s₂, a, s₃, as', rfl, hs, hs₁, hc, ⟨h₃, ha⟩, ⟨h₄, has⟩⟩
  · rintro (⟨rfl, r, rfl, hs⟩ | ⟨s₁, c, s₂, a, s₃, as', rfl, hs, hs₁, hc, ⟨h₃, ha⟩, ⟨h₄, has⟩⟩)
    · obtain ⟨h, hstop⟩ := afterItem_of_close hs
      refine ⟨h, ?_⟩
      rw [moreItems, hstop]
    · obtain ⟨h, hmore⟩ := afterItem_of_comma hs hs₁ hc
      refine ⟨Step.rest_le_of_more h h₃ h₄, ?_⟩
      rw [moreItems, hmore]
      simp only [ha, has]

theorem yields_closeArray {u : Unit} : Yields closeArray s u r ↔ dropBlanks s = ']' :: r := by
  rw [closeArray, yields_token_bind]
  cases hs : dropBlanks s with
  | nil => simp
  | cons c s' =>
    rw [List.head?_cons]
    split
    · next h => cases h
    · next h =>
      cases h
      simp
    · next hc h =>
      cases h
      simp only [not_yields_refuse, List.cons.injEq, false_iff, not_and]
      exact fun h => (hc h).elim

-- ---------------------------------------------------------------------------
-- Objects
-- ---------------------------------------------------------------------------

theorem yields_hasFirstEntry {b : Bool} : Yields hasFirstEntry s b r ↔
    ∃ r', r = (if b then '"' else '}') :: r' ∧ dropBlanks s = r := by
  rw [hasFirstEntry, yields_token_bind]
  cases hs : dropBlanks s with
  | nil =>
    constructor
    · intro hy
      exact absurd hy not_yields_refuse
    · rintro ⟨r', rfl, h⟩
      cases h
  | cons c s' =>
    rw [List.head?_cons]
    split
    · next h => cases h
    · next h =>
      cases h
      rw [yields_pure]
      constructor
      · rintro ⟨rfl, rfl⟩
        exact ⟨s', rfl, rfl⟩
      · rintro ⟨r', rfl, h⟩
        cases b with
        | false => exact ⟨rfl, h⟩
        | true => cases h
    · next h =>
      cases h
      rw [yields_pure]
      constructor
      · rintro ⟨rfl, rfl⟩
        exact ⟨s', rfl, rfl⟩
      · rintro ⟨r', rfl, h⟩
        cases b with
        | true => exact ⟨rfl, h⟩
        | false => cases h
    · next hbrace hquote h =>
      cases h
      constructor
      · intro hy
        exact absurd hy not_yields_refuse
      · rintro ⟨r', rfl, h⟩
        cases h
        cases b with
        | true => exact (hquote rfl).elim
        | false => exact (hbrace rfl).elim

theorem close_of_afterEntry {q : List Char} {h : q.length ≤ s.length}
    (he : afterEntry s = .ok (.stop q h)) : ∃ r, q = '}' :: r ∧ dropBlanks s = '}' :: r := by
  unfold afterEntry at he
  split at he
  · cases he
  · next r hs =>
    cases he
    exact ⟨r, rfl, hs⟩
  · split at he <;> cases he
  · cases he

theorem comma_of_afterEntry {q : List Char} {h : q.length < s.length}
    (he : afterEntry s = .ok (.more q h)) :
    ∃ s₁ r, q = '"' :: r ∧ dropBlanks s = ',' :: s₁ ∧ dropBlanks s₁ = '"' :: r := by
  unfold afterEntry at he
  split at he
  · cases he
  · cases he
  · next s₁ hs =>
    split at he
    · cases he
    · cases he
    · next r hs₁ =>
      cases he
      exact ⟨s₁, r, rfl, hs, hs₁⟩
    · cases he
  · cases he

theorem afterEntry_of_close (hs : dropBlanks s = '}' :: r) :
    ∃ h, afterEntry s = .ok (.stop ('}' :: r) h) := by
  unfold afterEntry
  split
  · next hs' => cases hs.symm.trans hs'
  · next hs' =>
    cases hs.symm.trans hs'
    exact ⟨length_le_of_dropBlanks hs, rfl⟩
  · next hs' => cases hs.symm.trans hs'
  · next hclose _ => exact absurd hs (hclose r)

theorem afterEntry_of_comma {s₁ : List Char} (hs : dropBlanks s = ',' :: s₁)
    (hs₁ : dropBlanks s₁ = '"' :: r) : ∃ h, afterEntry s = .ok (.more ('"' :: r) h) := by
  unfold afterEntry
  split
  · next hs' => cases hs.symm.trans hs'
  · next hs' => cases hs.symm.trans hs'
  · next hs' =>
    cases hs.symm.trans hs'
    split
    · next hs₁' => cases hs₁.symm.trans hs₁'
    · next hs₁' => cases hs₁.symm.trans hs₁'
    · next hs₁' =>
      cases hs₁.symm.trans hs₁'
      exact ⟨length_lt_behind hs hs₁, rfl⟩
    · next hquote => exact absurd hs₁ (hquote r)
  · next hcomma => exact absurd hs (hcomma s₁)

theorem yields_moreEntries {entry : α → Reader α} {st st' : α} {q : List Char} :
    Yields (moreEntries entry st) s st' q ↔
      (st' = st ∧ ∃ r, q = '}' :: r ∧ dropBlanks s = '}' :: r) ∨
      ∃ s₁ s₂ st₁ s₃, dropBlanks s = ',' :: s₁ ∧ dropBlanks s₁ = '"' :: s₂ ∧
        Yields (entry st) ('"' :: s₂) st₁ s₃ ∧ Yields (moreEntries entry st₁) s₃ st' q := by
  constructor
  · rintro ⟨h, he⟩
    rw [moreEntries] at he
    split at he
    · cases he
    · next hstop =>
      cases he
      exact .inl ⟨rfl, close_of_afterEntry hstop⟩
    · next hmore =>
      obtain ⟨s₁, s₂, rfl, hs, hs₁⟩ := comma_of_afterEntry hmore
      split at he
      · cases he
      · next st₁ s₃ h₃ hentry =>
        split at he
        · cases he
        · next st₂ r₄ h₄ hentries =>
          cases he
          exact .inr ⟨s₁, s₂, st₁, s₃, hs, hs₁, ⟨h₃, hentry⟩, ⟨h₄, hentries⟩⟩
  · rintro (⟨rfl, r, rfl, hs⟩ | ⟨s₁, s₂, st₁, s₃, hs, hs₁, ⟨h₃, hentry⟩, ⟨h₄, hentries⟩⟩)
    · obtain ⟨h, hstop⟩ := afterEntry_of_close hs
      refine ⟨h, ?_⟩
      rw [moreEntries, hstop]
    · obtain ⟨h, hmore⟩ := afterEntry_of_comma hs hs₁
      refine ⟨by omega, ?_⟩
      rw [moreEntries, hmore]
      simp only [hentry, hentries]

theorem yields_closeObject {u : Unit} : Yields closeObject s u r ↔ dropBlanks s = '}' :: r := by
  rw [closeObject, yields_token_bind]
  cases hs : dropBlanks s with
  | nil => simp
  | cons c s' =>
    rw [List.head?_cons]
    split
    · next h => cases h
    · next h =>
      cases h
      simp
    · next h =>
      cases h
      simp
    · next hc _ h =>
      cases h
      simp only [not_yields_refuse, List.cons.injEq, false_iff, not_and]
      exact fun h => (hc h).elim

theorem yields_key {name : String} : Yields key ('"' :: s) name r ↔
    ∃ k, Pieces s k ('"' :: r) ∧ Piece.text? k = some name := by
  simp only [key, yields_bind, yields_advance, yields_textBody]
  constructor
  · rintro ⟨-, s₁, rfl, h⟩
    exact h
  · intro h
    exact ⟨(), s, rfl, h⟩

end ImportAtlas.Json.Reader
