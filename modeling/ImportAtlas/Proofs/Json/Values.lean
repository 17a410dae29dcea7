-- SUMMARY: Taking one value after the other from a text: the grammar with all choices made.
import ImportAtlas.Proofs.Json.Numerals

/-! # Values

The grammar leaves open where blanks and numbers end. `Reads s t r` settles it: blanks are passed over
as far as they go, then comes a spelling of `t` that cannot be continued, and `r` is behind it. The
items of an array and the entries of an object are then taken one after the other, each up to the
comma or the bracket behind it. -/

namespace ImportAtlas.Json

open Reader

/-- A spelling of the tree begins with this character. -/
def Tree.Begins : Tree → Char → Prop
  | .null, c => c = 'n'
  | .bool true, c => c = 't'
  | .bool false, c => c = 'f'
  | .number _, c => c = '-' ∨ isDigit c = true
  | .string _, c => c = '"'
  | .array _, c => c = '['
  | .object _, c => c = '{'

/-- One value is taken from the front of `s`, and `r` is left. -/
def Reads (s : List Char) (t : Tree) (r : List Char) : Prop :=
  Spells (dropBlanks s) (.value t) r ∧ ∀ n, t = .number n → Stops n r

/-- What may stand behind a value and the blanks behind it. -/
def Follows (q : List Char) : Prop := ∀ c ∈ q.head?, c ∈ [',', ']', '}']

/-- The items behind an item and the closing bracket, then `r`. -/
inductive ItemsEnd : List Char → List Tree → List Char → Prop where
  | close {s r} (h : dropBlanks s = ']' :: r) : ItemsEnd s [] r
  | comma {s s₁ x s₂ xs r} (h : dropBlanks s = ',' :: s₁) (hx : Reads s₁ x s₂)
      (hxs : ItemsEnd s₂ xs r) : ItemsEnd s (x :: xs) r

/-- A key and its colon, then `r`. -/
def Keyed (s : List Char) (k : List Piece) (r : List Char) : Prop :=
  ∃ s₁ s₂, dropBlanks s = '"' :: s₁ ∧ Pieces s₁ k ('"' :: s₂) ∧ dropBlanks s₂ = ':' :: r

/-- The entries behind an entry and the closing brace, then `r`. -/
inductive EntriesEnd : List Char → List (List Piece × Tree) → List Char → Prop where
  | close {s r} (h : dropBlanks s = '}' :: r) : EntriesEnd s [] r
  | comma {s s₁ k s₂ x s₃ es r} (h : dropBlanks s = ',' :: s₁) (hk : Keyed s₁ k s₂)
      (hx : Reads s₂ x s₃) (hes : EntriesEnd s₃ es r) : EntriesEnd s ((k, x) :: es) r

variable {s r : List Char} {t : Tree}

-- ---------------------------------------------------------------------------
-- The first character of a value
-- ---------------------------------------------------------------------------

theorem Numeral.begins {n : Number} (h : Numeral s n r) :
    ∃ c s', s = c :: s' ∧ (c = '-' ∨ isDigit c = true) := by
  obtain ⟨hwhole, s₁, s₂, rfl, -, -⟩ := h
  cases n.negative with
  | true => exact ⟨'-', n.whole ++ s₁, rfl, .inl rfl⟩
  | false =>
    rcases hwhole with hzero | ⟨hne, -, hds⟩
    · rw [hzero]
      exact ⟨'0', s₁, rfl, .inr rfl⟩
    · cases hw : n.whole with
      | nil => exact absurd hw hne
      | cons d ds =>
        rw [hw] at hds
        exact ⟨d, ds ++ s₁, rfl, .inr (hds d (.head _))⟩

theorem Spells.begins (h : Spells s (.value t) r) : ∃ c s', s = c :: s' ∧ t.Begins c := by
  cases h with
  | number hn => exact hn.begins
  | string hs =>
    obtain ⟨s₁, rfl, -⟩ := hs
    exact ⟨'"', s₁, rfl, rfl⟩
  | null | true | false | emptyArray | array | emptyObject | object => exact ⟨_, _, rfl, rfl⟩

/-- The characters other than digits that a value can begin with. -/
def opening : List Char := ['n', 't', 'f', '-', '"', '[', '{']

theorem Tree.Begins.isDigit_or_mem {c : Char} (h : t.Begins c) : isDigit c = true ∨ c ∈ opening := by
  cases t with
  | number n =>
    rcases h with rfl | h
    · exact .inr (by decide)
    · exact .inl h
  | bool b =>
    cases b with
    | true =>
      cases h
      exact .inr (by decide)
    | false =>
      cases h
      exact .inr (by decide)
  | null | string _ | array _ | object _ =>
    cases h
    exact .inr (by decide)

theorem isDigit_eq_false_of_isBlank {c : Char} (h : isBlank c = true) : isDigit c = false := by
  simp only [isBlank, Bool.or_eq_true, beq_iff_eq] at h
  rcases h with ((rfl | rfl) | rfl) | rfl <;> rfl

theorem Tree.Begins.not_blank {c : Char} (h : t.Begins c) : isBlank c = false := by
  rcases h.isDigit_or_mem with hd | hm
  · cases hb : isBlank c with
    | false => rfl
    | true =>
      rw [isDigit_eq_false_of_isBlank hb] at hd
      cases hd
  · have hall : opening.all (fun c => !isBlank c) = true := rfl
    simpa using List.all_eq_true.mp hall c hm

theorem Tree.Begins.ne_close {c : Char} (h : t.Begins c) : c ≠ ']' := by
  rcases h.isDigit_or_mem with hd | hm
  · rintro rfl
    cases hd
  · have hall : opening.all (· != ']') = true := rfl
    simpa using List.all_eq_true.mp hall c hm

theorem dropBlanks_cons {c : Char} (hc : isBlank c = false) : dropBlanks (c :: s) = c :: s := by
  rw [dropBlanks, List.dropWhile_cons, hc]
  rfl

theorem length_le_of_dropBlanks (h : dropBlanks s = r) : r.length ≤ s.length :=
  h ▸ length_dropBlanks_le s

theorem length_lt_of_dropBlanks {c : Char} (h : dropBlanks s = c :: r) : r.length < s.length :=
  length_le_of_dropBlanks h

theorem length_lt_behind {c : Char} {s₁ : List Char} (h : dropBlanks s = c :: s₁)
    (h₁ : dropBlanks s₁ = r) : r.length < s.length :=
  Nat.lt_of_le_of_lt (length_le_of_dropBlanks h₁) (length_lt_of_dropBlanks h)

@[simp] theorem dropBlanks_dropBlanks (s : List Char) : dropBlanks (dropBlanks s) = dropBlanks s :=
  (Blanks.dropBlanks s).dropBlanks_eq.symm

-- ---------------------------------------------------------------------------
-- Taking one value
-- ---------------------------------------------------------------------------

theorem Reads.begins (h : Reads s t r) : ∃ c s', dropBlanks s = c :: s' ∧ t.Begins c := h.1.begins

theorem Reads.begins_with {c : Char} {s' : List Char} (h : Reads s t r)
    (hs : dropBlanks s = c :: s') : t.Begins c := by
  obtain ⟨c', s₁, hs', hc⟩ := h.begins
  cases hs.symm.trans hs'
  exact hc

theorem reads_dropBlanks : Reads (dropBlanks s) t r ↔ Reads s t r := by
  rw [Reads, Reads, dropBlanks_dropBlanks]

theorem Follows.not_blank {c : Char} (h : Follows (c :: r)) : isBlank c = false := by
  have hall : [',', ']', '}'].all (fun c => !isBlank c) = true := rfl
  simpa using List.all_eq_true.mp hall c (h c rfl)

theorem Follows.dropBlanks_eq (h : Follows r) : dropBlanks r = r := by
  cases r with
  | nil => rfl
  | cons c r => exact dropBlanks_cons h.not_blank

/-- No number goes on behind a blank, a comma or a closing bracket. -/
theorem Follows.stops {q : List Char} (h : Follows q) (hr : Blanks r q) (n : Number) : Stops n r := by
  have hhead : ∀ c ∈ r.head?, isDigit c = false ∧ c ≠ 'e' ∧ c ≠ 'E' ∧ c ≠ '.' := by
    intro c hc
    cases hr with
    | nil =>
      have hall : [',', ']', '}'].all
          (fun c => !isDigit c && (c != 'e' && (c != 'E' && c != '.'))) = true := rfl
      simpa using List.all_eq_true.mp hall c (h c hc)
    | cons hblank _ =>
      cases hc
      refine ⟨isDigit_eq_false_of_isBlank hblank, ?_, ?_, ?_⟩
      · rintro rfl
        cases hblank
      · rintro rfl
        cases hblank
      · rintro rfl
        cases hblank
  refine ⟨fun c hc => (hhead c hc).1, fun _ => ⟨?_, ?_⟩, fun _ _ => ?_⟩
  · exact fun he => (hhead _ he).2.1 rfl
  · exact fun he => (hhead _ he).2.2.1 rfl
  · exact fun he => (hhead _ he).2.2.2 rfl

theorem spells_element_iff {q : List Char} (hq : Follows q) :
    Spells s (.element t) q ↔ ∃ s₁, Reads s t s₁ ∧ dropBlanks s₁ = q := by
  constructor
  · intro h
    cases h with
    | @element _ s₁ _ s₂ _ hbefore ht hafter =>
      obtain ⟨c, s', rfl, hc⟩ := ht.begins
      refine ⟨s₂, ⟨?_, fun n _ => hq.stops hafter n⟩, ?_⟩
      · rw [hbefore.dropBlanks_eq, dropBlanks_cons hc.not_blank]
        exact ht
      · rw [hafter.dropBlanks_eq, hq.dropBlanks_eq]
  · rintro ⟨s₁, ⟨ht, -⟩, rfl⟩
    exact .element (.dropBlanks s) ht (.dropBlanks s₁)

-- ---------------------------------------------------------------------------
-- Arrays
-- ---------------------------------------------------------------------------

theorem follows_close : Follows (']' :: r) := by
  rintro c ⟨⟩
  decide

theorem follows_comma : Follows (',' :: r) := by
  rintro c ⟨⟩
  decide

theorem follows_closeObject : Follows ('}' :: r) := by
  rintro c ⟨⟩
  decide

theorem spells_elements_iff {x : Tree} {xs : List Tree} :
    Spells s (.elements (x :: xs)) (']' :: r) ↔ ∃ s₁, Reads s x s₁ ∧ ItemsEnd s₁ xs r := by
  constructor
  · intro h
    induction xs generalizing s x with
    | nil =>
      cases h with
      | lastElement hx =>
        obtain ⟨s₁, hx, hs₁⟩ := (spells_element_iff follows_close).mp hx
        exact ⟨s₁, hx, .close hs₁⟩
      | moreElements hx hxs => cases hxs
    | cons y ys ih =>
      cases h with
      | moreElements hx hxs =>
        obtain ⟨s₁, hx, hs₁⟩ := (spells_element_iff follows_comma).mp hx
        obtain ⟨s₂, hy, hys⟩ := ih hxs
        exact ⟨s₁, hx, .comma hs₁ hy hys⟩
  · rintro ⟨s₁, hx, hxs⟩
    induction hxs generalizing s x with
    | close h => exact .lastElement ((spells_element_iff follows_close).mpr ⟨_, hx, h⟩)
    | comma h hy _ ih =>
      exact .moreElements ((spells_element_iff follows_comma).mpr ⟨_, hx, h⟩) (ih hy)

theorem spells_array_iff {xs : List Tree} : Spells ('[' :: s) (.value (.array xs)) r ↔
    (xs = [] ∧ dropBlanks s = ']' :: r) ∨
      ∃ x xs' s₁, xs = x :: xs' ∧ Reads s x s₁ ∧ ItemsEnd s₁ xs' r := by
  constructor
  · intro h
    cases h with
    | emptyArray hs => exact .inl ⟨rfl, hs.dropBlanks_eq.trans follows_close.dropBlanks_eq⟩
    | array hs =>
      cases xs with
      | nil => cases hs
      | cons x xs =>
        obtain ⟨s₁, hx, hxs⟩ := spells_elements_iff.mp hs
        exact .inr ⟨x, xs, s₁, rfl, hx, hxs⟩
  · rintro (⟨rfl, h⟩ | ⟨x, xs, s₁, rfl, hx, hxs⟩)
    · exact .emptyArray (h ▸ .dropBlanks s)
    · exact .array (spells_elements_iff.mpr ⟨s₁, hx, hxs⟩)

-- ---------------------------------------------------------------------------
-- Objects
-- ---------------------------------------------------------------------------

theorem keyed_dropBlanks {k : List Piece} : Keyed (dropBlanks s) k r ↔ Keyed s k r := by
  rw [Keyed, Keyed, dropBlanks_dropBlanks]

theorem Keyed.begins {k : List Piece} (h : Keyed s k r) : ∃ s₁, dropBlanks s = '"' :: s₁ := by
  obtain ⟨s₁, _, hs, -⟩ := h
  exact ⟨s₁, hs⟩

theorem spells_member_iff {k : List Piece} {q : List Char} (hq : Follows q) :
    Spells s (.member k t) q ↔ ∃ s₁ s₂, Keyed s k s₁ ∧ Reads s₁ t s₂ ∧ dropBlanks s₂ = q := by
  constructor
  · intro h
    cases h with
    | @member _ s₁ _ s₂ s₃ _ _ hbefore hk hcolon ht =>
      obtain ⟨s₄, rfl, hk⟩ := hk
      obtain ⟨s₅, ht, hs₅⟩ := (spells_element_iff hq).mp ht
      exact ⟨s₃, s₅, ⟨s₄, s₂, hbefore.dropBlanks_eq, hk, hcolon.dropBlanks_eq⟩, ht, hs₅⟩
  · rintro ⟨s₁, s₂, ⟨s₃, s₄, hs, hk, hcolon⟩, ht, hs₂⟩
    exact .member (hs ▸ .dropBlanks s) ⟨s₃, rfl, hk⟩ (hcolon ▸ .dropBlanks s₄)
      ((spells_element_iff hq).mpr ⟨s₂, ht, hs₂⟩)

theorem spells_members_iff {k : List Piece} {x : Tree} {es : List (List Piece × Tree)} :
    Spells s (.members ((k, x) :: es)) ('}' :: r) ↔
      ∃ s₁ s₂, Keyed s k s₁ ∧ Reads s₁ x s₂ ∧ EntriesEnd s₂ es r := by
  constructor
  · intro h
    induction es generalizing s k x with
    | nil =>
      cases h with
      | lastMember hx =>
        obtain ⟨s₁, s₂, hk, hx, hs₂⟩ := (spells_member_iff follows_closeObject).mp hx
        exact ⟨s₁, s₂, hk, hx, .close hs₂⟩
      | moreMembers hx hes => cases hes
    | cons e es ih =>
      cases h with
      | moreMembers hx hes =>
        obtain ⟨s₁, s₂, hk, hx, hs₂⟩ := (spells_member_iff follows_comma).mp hx
        obtain ⟨s₃, s₄, hk', hy, hes⟩ := ih hes
        exact ⟨s₁, s₂, hk, hx, .comma hs₂ hk' hy hes⟩
  · rintro ⟨s₁, s₂, hk, hx, hes⟩
    induction hes generalizing s s₁ k x with
    | close h => exact .lastMember ((spells_member_iff follows_closeObject).mpr ⟨_, _, hk, hx, h⟩)
    | comma h hk' hy _ ih =>
      exact .moreMembers ((spells_member_iff follows_comma).mpr ⟨_, _, hk, hx, h⟩) (ih _ hk' hy)

theorem spells_object_iff {es : List (List Piece × Tree)} :
    Spells ('{' :: s) (.value (.object es)) r ↔
      (es = [] ∧ dropBlanks s = '}' :: r) ∨ ∃ k x es' s₁ s₂, es = (k, x) :: es' ∧
        Keyed s k s₁ ∧ Reads s₁ x s₂ ∧ EntriesEnd s₂ es' r := by
  constructor
  · intro h
    cases h with
    | emptyObject hs => exact .inl ⟨rfl, hs.dropBlanks_eq.trans follows_closeObject.dropBlanks_eq⟩
    | object hs =>
      cases es with
      | nil => cases hs
      | cons e es =>
        obtain ⟨s₁, s₂, hk, hx, hes⟩ := spells_members_iff.mp hs
        exact .inr ⟨e.1, e.2, es, s₁, s₂, rfl, hk, hx, hes⟩
  · rintro (⟨rfl, h⟩ | ⟨k, x, es, s₁, s₂, rfl, hk, hx, hes⟩)
    · exact .emptyObject (h ▸ .dropBlanks s)
    · exact .object (spells_members_iff.mpr ⟨s₁, s₂, hk, hx, hes⟩)

-- ---------------------------------------------------------------------------
-- Values by their first character
-- ---------------------------------------------------------------------------

section FirstCharacter

variable {c : Char} {s' : List Char}

theorem Numeral.head {n : Number} (h : Numeral (c :: s) n r) : c = '-' ∨ isDigit c = true := by
  obtain ⟨_, _, hcons, hc⟩ := h.begins
  cases hcons
  exact hc

theorem Quoted.head {ps : List Piece} (h : Quoted (c :: s) ps r) : c = '"' := by
  obtain ⟨_, hcons, -⟩ := h
  cases hcons
  rfl

/-- Only a number could be continued. -/
theorem reads_iff_spells (hs : dropBlanks s = c :: s') (hc : ¬ (c = '-' ∨ isDigit c = true)) :
    Reads s t r ↔ Spells (c :: s') (.value t) r ∧ ∀ n, t ≠ .number n := by
  rw [Reads, hs]
  constructor
  · rintro ⟨hspell, -⟩
    refine ⟨hspell, ?_⟩
    rintro n rfl
    cases hspell with
    | number hn => exact hc hn.head
  · rintro ⟨hspell, ht⟩
    exact ⟨hspell, fun n h => absurd h (ht n)⟩

theorem reads_null (hs : dropBlanks s = 'n' :: s') :
    Reads s t r ↔ t = .null ∧ 'n' :: s' = ['n', 'u', 'l', 'l'] ++ r := by
  rw [reads_iff_spells hs (by decide)]
  constructor
  · rintro ⟨hspell, ht⟩
    cases hspell with
    | null => exact ⟨rfl, rfl⟩
    | number _ => exact absurd rfl (ht _)
    | string hq => cases hq.head
  · rintro ⟨rfl, hr⟩
    rw [hr]
    exact ⟨.null, fun n h => nomatch h⟩

theorem reads_true (hs : dropBlanks s = 't' :: s') :
    Reads s t r ↔ t = .bool true ∧ 't' :: s' = ['t', 'r', 'u', 'e'] ++ r := by
  rw [reads_iff_spells hs (by decide)]
  constructor
  · rintro ⟨hspell, ht⟩
    cases hspell with
    | true => exact ⟨rfl, rfl⟩
    | number _ => exact absurd rfl (ht _)
    | string hq => cases hq.head
  · rintro ⟨rfl, hr⟩
    rw [hr]
    exact ⟨.true, fun n h => nomatch h⟩

theorem reads_false (hs : dropBlanks s = 'f' :: s') :
    Reads s t r ↔ t = .bool false ∧ 'f' :: s' = ['f', 'a', 'l', 's', 'e'] ++ r := by
  rw [reads_iff_spells hs (by decide)]
  constructor
  · rintro ⟨hspell, ht⟩
    cases hspell with
    | false => exact ⟨rfl, rfl⟩
    | number _ => exact absurd rfl (ht _)
    | string hq => cases hq.head
  · rintro ⟨rfl, hr⟩
    rw [hr]
    exact ⟨.false, fun n h => nomatch h⟩

theorem reads_string (hs : dropBlanks s = '"' :: s') :
    Reads s t r ↔ ∃ ps, t = .string ps ∧ Pieces s' ps ('"' :: r) := by
  rw [reads_iff_spells hs (by decide)]
  constructor
  · rintro ⟨hspell, ht⟩
    cases hspell with
    | @string _ ps _ hq =>
      obtain ⟨_, hcons, hps⟩ := hq
      cases hcons
      exact ⟨ps, rfl, hps⟩
    | number _ => exact absurd rfl (ht _)
  · rintro ⟨ps, rfl, hps⟩
    exact ⟨.string ⟨s', rfl, hps⟩, fun n h => nomatch h⟩

theorem reads_array (hs : dropBlanks s = '[' :: s') :
    Reads s t r ↔ ∃ xs, t = .array xs ∧ Spells ('[' :: s') (.value (.array xs)) r := by
  rw [reads_iff_spells hs (by decide)]
  constructor
  · rintro ⟨hspell, ht⟩
    cases hspell with
    | emptyArray hs => exact ⟨[], rfl, .emptyArray hs⟩
    | @array _ xs _ hs => exact ⟨xs, rfl, .array hs⟩
    | number _ => exact absurd rfl (ht _)
    | string hq => cases hq.head
  · rintro ⟨xs, rfl, hspell⟩
    exact ⟨hspell, fun n h => nomatch h⟩

theorem reads_object (hs : dropBlanks s = '{' :: s') :
    Reads s t r ↔ ∃ es, t = .object es ∧ Spells ('{' :: s') (.value (.object es)) r := by
  rw [reads_iff_spells hs (by decide)]
  constructor
  · rintro ⟨hspell, ht⟩
    cases hspell with
    | emptyObject hs => exact ⟨[], rfl, .emptyObject hs⟩
    | @object _ es _ hs => exact ⟨es, rfl, .object hs⟩
    | number _ => exact absurd rfl (ht _)
    | string hq => cases hq.head
  · rintro ⟨es, rfl, hspell⟩
    exact ⟨hspell, fun n h => nomatch h⟩

end FirstCharacter

end ImportAtlas.Json
