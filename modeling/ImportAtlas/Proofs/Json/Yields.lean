-- SUMMARY: What readers take from a text: sequencing, words and strings, each against the grammar.
import ImportAtlas.Proofs.Json.Grammar

/-! # What readers take

`Yields x s a r` says that the reader `x` takes `a` from the front of `s` and leaves `r`. Every reader
gets one lemma that says when this is so, and no later proof looks inside it. Strings are taken exactly
as the grammar spells them, and a kept string is one whose surrogates stand in pairs. -/

namespace ImportAtlas.Json.Reader

/-- The reader takes `a` from the front of `s` and leaves `r`. -/
def Yields {α : Type} (x : Reader α) (s : List Char) (a : α) (r : List Char) : Prop :=
  ∃ h, x s = .ok ⟨a, r, h⟩

variable {α β : Type} {s r : List Char}

theorem Yields.length_le {x : Reader α} {a : α} (h : Yields x s a r) : r.length ≤ s.length := h.1

theorem Yields.unique {x : Reader α} {a b : α} {r' : List Char} (h : Yields x s a r)
    (h' : Yields x s b r') : a = b ∧ r = r' := by
  obtain ⟨hr, he⟩ := h
  obtain ⟨hr', he'⟩ := h'
  rw [he] at he'
  cases he'
  exact ⟨rfl, rfl⟩

-- ---------------------------------------------------------------------------
-- Sequencing
-- ---------------------------------------------------------------------------

@[simp] theorem yields_pure {a b : α} : Yields (pure a) s b r ↔ a = b ∧ s = r := by
  constructor
  · rintro ⟨h, he⟩
    cases he
    exact ⟨rfl, rfl⟩
  · rintro ⟨rfl, rfl⟩
    exact ⟨Nat.le_refl _, rfl⟩

@[simp] theorem yields_bind {x : Reader α} {f : α → Reader β} {b : β} :
    Yields (x >>= f) s b r ↔ ∃ a r₁, Yields x s a r₁ ∧ Yields (f a) r₁ b r := by
  constructor
  · rintro ⟨h, he⟩
    change Reader.bind x f s = _ at he
    rw [Reader.bind] at he
    split at he
    · cases he
    · next a r₁ h₁ hx =>
      split at he
      · cases he
      · next b' r₂ h₂ hf =>
        cases he
        exact ⟨a, r₁, ⟨h₁, hx⟩, h₂, hf⟩
  · rintro ⟨a, r₁, ⟨h₁, hx⟩, h₂, hf⟩
    refine ⟨Nat.le_trans h₂ h₁, ?_⟩
    change Reader.bind x f s = _
    simp only [Reader.bind, hx, hf]

@[simp] theorem yields_map {x : Reader α} {f : α → β} {b : β} :
    Yields (f <$> x) s b r ↔ ∃ a, Yields x s a r ∧ f a = b := by
  change Yields (x >>= fun a => pure (f a)) s b r ↔ _
  simp only [yields_bind, yields_pure]
  constructor
  · rintro ⟨a, r₁, hx, rfl, rfl⟩
    exact ⟨a, hx, rfl⟩
  · rintro ⟨a, hx, rfl⟩
    exact ⟨a, r, hx, rfl, rfl⟩

@[simp] theorem not_yields_fail {c : Cause} {a : α} : ¬ Yields (fail c) s a r := by
  rintro ⟨h, he⟩
  cases he

@[simp] theorem not_yields_refuse {c : Cause} {a : α} : ¬ Yields (refuse c) s a r := by
  rintro ⟨h, he⟩
  cases he

@[simp] theorem yields_peek {c : Option Char} : Yields peek s c r ↔ s.head? = c ∧ s = r := by
  constructor
  · rintro ⟨h, he⟩
    cases he
    exact ⟨rfl, rfl⟩
  · rintro ⟨rfl, rfl⟩
    exact ⟨Nat.le_refl _, rfl⟩

@[simp] theorem yields_advance {u : Unit} : Yields advance s u r ↔ s.tail = r := by
  constructor
  · rintro ⟨h, he⟩
    cases he
    rfl
  · rintro rfl
    exact ⟨by simp, rfl⟩

@[simp] theorem yields_token {c : Option Char} :
    Yields token s c r ↔ (dropBlanks s).head? = c ∧ dropBlanks s = r := by
  constructor
  · rintro ⟨h, he⟩
    cases he
    exact ⟨rfl, rfl⟩
  · rintro ⟨rfl, rfl⟩
    exact ⟨length_dropBlanks_le s, rfl⟩

theorem yields_pure_bind {a : α} {f : α → Reader β} {b : β} :
    Yields (pure a >>= f) s b r ↔ Yields (f a) s b r := by
  simp only [yields_bind, yields_pure]
  constructor
  · rintro ⟨a', r₁, ⟨rfl, rfl⟩, h⟩
    exact h
  · intro h
    exact ⟨a, s, ⟨rfl, rfl⟩, h⟩

/-- Looking at the next character and going on. -/
theorem yields_peek_bind {f : Option Char → Reader β} {b : β} :
    Yields (peek >>= f) s b r ↔ Yields (f s.head?) s b r := by
  simp only [yields_bind, yields_peek]
  constructor
  · rintro ⟨c, r₁, ⟨rfl, rfl⟩, h⟩
    exact h
  · intro h
    exact ⟨_, _, ⟨rfl, rfl⟩, h⟩

/-- Looking at the next character that is not blank and going on. -/
theorem yields_token_bind {f : Option Char → Reader β} {b : β} :
    Yields (token >>= f) s b r ↔ Yields (f (dropBlanks s).head?) (dropBlanks s) b r := by
  simp only [yields_bind, yields_token]
  constructor
  · rintro ⟨c, r₁, ⟨rfl, rfl⟩, h⟩
    exact h
  · intro h
    exact ⟨_, _, ⟨rfl, rfl⟩, h⟩

theorem yields_word {w : List Char} {u : Unit} : Yields (word w) s u r ↔ s = w ++ r := by
  induction w generalizing s with
  | nil =>
    constructor
    · rintro ⟨h, he⟩
      cases he
      rfl
    · rintro rfl
      exact ⟨Nat.le_refl _, rfl⟩
  | cons c w ih =>
    cases s with
    | nil =>
      constructor
      · rintro ⟨h, he⟩
        cases he
      · intro h
        cases h
    | cons d s =>
      rw [List.cons_append, List.cons.injEq]
      constructor
      · rintro ⟨h, he⟩
        rw [word] at he
        split at he
        · next hd =>
          split at he
          · cases he
          · next r' h' hw =>
            cases he
            exact ⟨hd, ih.mp ⟨h', hw⟩⟩
        · cases he
      · rintro ⟨rfl, rfl⟩
        obtain ⟨h', hw⟩ := (ih (s := w ++ r)).mpr rfl
        refine ⟨Nat.le_succ_of_le h', ?_⟩
        simp only [word, if_true, hw]

theorem yields_colon {u : Unit} : Yields colon s u r ↔ dropBlanks s = ':' :: r := by
  rw [colon, yields_token_bind]
  split
  · next h => simp [List.head?_eq_none_iff.mp h]
  · next h =>
    obtain ⟨s', hs⟩ := List.head?_eq_some_iff.mp h
    simp [hs]
  · next c hc h =>
    obtain ⟨s', hs⟩ := List.head?_eq_some_iff.mp h
    simp only [not_yields_refuse, hs, List.cons.injEq, false_iff, not_and]
    rintro rfl
    exact absurd rfl hc

-- ---------------------------------------------------------------------------
-- Strings that are passed over
-- ---------------------------------------------------------------------------

theorem yields_hexUnit {n : Nat} : Yields hexUnit s n r ↔ ∃ a b c d w x y z,
    hexValue? a = some w ∧ hexValue? b = some x ∧ hexValue? c = some y ∧ hexValue? d = some z ∧
      s = a :: b :: c :: d :: r ∧ n = ((w * 16 + x) * 16 + y) * 16 + z := by
  constructor
  · rintro ⟨h, he⟩
    unfold hexUnit at he
    split at he
    · split at he
      · next ha hb hc hd =>
        cases he
        exact ⟨_, _, _, _, _, _, _, _, ha, hb, hc, hd, rfl, rfl⟩
      · cases he
    · cases he
  · rintro ⟨a, b, c, d, w, x, y, z, ha, hb, hc, hd, rfl, rfl⟩
    refine ⟨by simp only [List.length_cons]; omega, ?_⟩
    simp only [hexUnit, ha, hb, hc, hd]

theorem yields_escape {p : Piece} : Yields escape s p r ↔ Piece.Spelled ('\\' :: s) p r := by
  constructor
  · rintro ⟨h, he⟩
    unfold escape at he
    split at he
    · cases he
    · split at he
      · cases he
      · next n r' h' hn =>
        cases he
        obtain ⟨a, b, c, d, w, x, y, z, ha, hb, hc, hd, rfl, rfl⟩ := yields_hexUnit.mp ⟨h', hn⟩
        exact .unit ha hb hc hd
    · split at he
      · next hc =>
        cases he
        exact .escape hc
      · cases he
  · intro h
    cases h with
    | plain _ hbackslash _ => exact absurd rfl hbackslash
    | @escape e c r he =>
      refine ⟨length_le_cons e r, ?_⟩
      have hu : e ≠ 'u' := by
        rintro rfl
        cases he
      simp [escape, he]
    | unit ha hb hc hd =>
      obtain ⟨h', hn⟩ := yields_hexUnit.mpr ⟨_, _, _, _, _, _, _, _, ha, hb, hc, hd, rfl, rfl⟩
      refine ⟨length_le_cons_of_le 'u' h', ?_⟩
      simp only [escape, hn]

theorem yields_pieceTail_quote {ps : List Piece} :
    Yields pieceTail ('"' :: s) ps r ↔ ps = [] ∧ s = r := by
  constructor
  · rintro ⟨h, he⟩
    rw [pieceTail] at he
    cases he
    exact ⟨rfl, rfl⟩
  · rintro ⟨rfl, rfl⟩
    exact ⟨Nat.le_succ _, by rw [pieceTail]⟩

theorem yields_pieceTail_escape {ps : List Piece} :
    Yields pieceTail ('\\' :: s) ps r ↔
      ∃ p r₁ ps', Yields escape s p r₁ ∧ Yields pieceTail r₁ ps' r ∧ ps = p :: ps' := by
  constructor
  · rintro ⟨h, he⟩
    rw [pieceTail] at he
    split at he
    · cases he
    · next p r₁ h₁ hp =>
      split at he
      · cases he
      · next ps' r₂ h₂ hps =>
        cases he
        exact ⟨p, r₁, ps', ⟨h₁, hp⟩, ⟨h₂, hps⟩, rfl⟩
  · rintro ⟨p, r₁, ps', ⟨h₁, hp⟩, ⟨h₂, hps⟩, rfl⟩
    refine ⟨length_le_cons_of_le _ (Nat.le_trans h₂ h₁), ?_⟩
    rw [pieceTail]
    simp only [hp, hps]

theorem yields_pieceTail_plain {c : Char} {ps : List Piece} (hquote : c ≠ '"')
    (hbackslash : c ≠ '\\') :
    Yields pieceTail (c :: s) ps r ↔
      isControl c = false ∧ ∃ ps', Yields pieceTail s ps' r ∧ ps = .char c :: ps' := by
  constructor
  · rintro ⟨h, he⟩
    rw [pieceTail] at he
    · split at he
      · cases he
      · next hc =>
        split at he
        · cases he
        · next ps' r' h' hps =>
          cases he
          exact ⟨by simpa using hc, ps', ⟨h', hps⟩, rfl⟩
    · exact hquote
    · exact hbackslash
  · rintro ⟨hc, ps', ⟨h', hps⟩, rfl⟩
    refine ⟨Nat.le_succ_of_le h', ?_⟩
    rw [pieceTail]
    · simp only [hc, hps]
      rfl
    · exact hquote
    · exact hbackslash

theorem pieces_of_yields {ps : List Piece} (h : Yields pieceTail s ps r) :
    Pieces s ps ('"' :: r) := by
  induction hn : s.length using Nat.strongRecOn generalizing s ps with
  | ind n ih =>
    cases s with
    | nil =>
      obtain ⟨hr, he⟩ := h
      rw [pieceTail] at he
      cases he
    | cons c s =>
      by_cases hquote : c = '"'
      · subst hquote
        obtain ⟨rfl, rfl⟩ := yields_pieceTail_quote.mp h
        exact .nil
      · by_cases hbackslash : c = '\\'
        · subst hbackslash
          obtain ⟨p, r₁, ps', hp, hps, rfl⟩ := yields_pieceTail_escape.mp h
          have hlt : r₁.length < n := by
            rw [← hn]
            exact Nat.lt_succ_of_le hp.length_le
          exact .cons (yields_escape.mp hp) (ih _ hlt hps rfl)
        · obtain ⟨hc, ps', hps, rfl⟩ := (yields_pieceTail_plain hquote hbackslash).mp h
          have hlt : s.length < n := by
            rw [← hn]
            exact Nat.lt_succ_self _
          exact .cons (.plain hquote hbackslash hc) (ih _ hlt hps rfl)

theorem yields_pieceTail {ps : List Piece} :
    Yields pieceTail s ps r ↔ Pieces s ps ('"' :: r) := by
  refine ⟨pieces_of_yields, ?_⟩
  intro h
  generalize hq : '"' :: r = q at h
  induction h with
  | nil =>
    subst hq
    exact yields_pieceTail_quote.mpr ⟨rfl, rfl⟩
  | cons hp _ ih =>
    cases hp with
    | plain hquote hbackslash hc =>
      exact (yields_pieceTail_plain hquote hbackslash).mpr ⟨hc, _, ih hq, rfl⟩
    | escape he =>
      exact yields_pieceTail_escape.mpr ⟨_, _, _, yields_escape.mpr (.escape he), ih hq, rfl⟩
    | unit ha hb hc hd =>
      exact yields_pieceTail_escape.mpr
        ⟨_, _, _, yields_escape.mpr (.unit ha hb hc hd), ih hq, rfl⟩

-- ---------------------------------------------------------------------------
-- Strings that are kept
-- ---------------------------------------------------------------------------

theorem not_low_of_high {n : Nat} (h : isHighSurrogate n = true) : isLowSurrogate n = false := by
  simp only [isHighSurrogate, isLowSurrogate, Bool.and_eq_true, decide_eq_true_eq,
    Bool.and_eq_false_iff, decide_eq_false_iff_not] at h ⊢
  omega

theorem yields_lowSurrogate {m : Nat} :
    Yields lowSurrogate s m r ↔ isLowSurrogate m = true ∧ Piece.Spelled s (.unit m) r := by
  constructor
  · rintro ⟨h, he⟩
    unfold lowSurrogate at he
    split at he
    · cases he
    · cases he
    · split at he
      · cases he
      · next n r' h' hn =>
        split at he
        · next hlow =>
          cases he
          obtain ⟨a, b, c, d, w, x, y, z, ha, hb, hc, hd, rfl, rfl⟩ := yields_hexUnit.mp ⟨h', hn⟩
          exact ⟨hlow, .unit ha hb hc hd⟩
        · cases he
    · cases he
    · cases he
  · rintro ⟨hlow, h⟩
    cases h with
    | @unit a b c d r w x y z ha hb hc hd =>
      have hunit : Yields hexUnit (a :: b :: c :: d :: r) (((w * 16 + x) * 16 + y) * 16 + z) r :=
        yields_hexUnit.mpr ⟨_, _, _, _, _, _, _, _, ha, hb, hc, hd, rfl, rfl⟩
      obtain ⟨h', hn⟩ := hunit
      refine ⟨by simp only [List.length_cons]; omega, ?_⟩
      simp only [lowSurrogate, hn, hlow, if_true]

theorem yields_complete_unit {n : Nat} {c : Char} :
    Yields (Piece.complete (.unit n)) s c r ↔
      (isHighSurrogate n = false ∧ isLowSurrogate n = false ∧ Char.ofNat n = c ∧ s = r) ∨
      (isHighSurrogate n = true ∧ ∃ m, isLowSurrogate m = true ∧ Piece.Spelled s (.unit m) r ∧
        pairValue n m = c) := by
  rw [Piece.complete]
  cases hhigh : isHighSurrogate n with
  | true =>
    simp only [not_low_of_high hhigh, Bool.false_eq_true, if_false, if_true, yields_bind, yields_pure,
      yields_lowSurrogate]
    constructor
    · rintro ⟨m, r₁, ⟨hlow, hm⟩, hc, rfl⟩
      exact .inr ⟨trivial, m, hlow, hm, hc⟩
    · rintro (⟨h, -⟩ | ⟨-, m, hlow, hm, hc⟩)
      · cases h
      · exact ⟨m, r, ⟨hlow, hm⟩, hc, rfl⟩
  | false =>
    cases hlow : isLowSurrogate n with
    | true => simp
    | false => simp

theorem yields_textTail_quote {cs : List Char} :
    Yields textTail ('"' :: s) cs r ↔ cs = [] ∧ s = r := by
  constructor
  · rintro ⟨h, he⟩
    rw [textTail] at he
    cases he
    exact ⟨rfl, rfl⟩
  · rintro ⟨rfl, rfl⟩
    exact ⟨Nat.le_succ _, by rw [textTail]⟩

theorem yields_textTail_escape {cs : List Char} :
    Yields textTail ('\\' :: s) cs r ↔
      ∃ p r₁ c r₂ cs', Yields escape s p r₁ ∧ Yields p.complete r₁ c r₂ ∧
        Yields textTail r₂ cs' r ∧ cs = c :: cs' := by
  constructor
  · rintro ⟨h, he⟩
    rw [textTail] at he
    split at he
    · cases he
    · next p r₁ h₁ hp =>
      split at he
      · cases he
      · next c r₂ h₂ hc =>
        split at he
        · cases he
        · next cs' r₃ h₃ hcs =>
          cases he
          exact ⟨p, r₁, c, r₂, cs', ⟨h₁, hp⟩, ⟨h₂, hc⟩, ⟨h₃, hcs⟩, rfl⟩
  · rintro ⟨p, r₁, c, r₂, cs', ⟨h₁, hp⟩, ⟨h₂, hc⟩, ⟨h₃, hcs⟩, rfl⟩
    refine ⟨length_le_cons_of_le _ (Nat.le_trans h₃ (Nat.le_trans h₂ h₁)), ?_⟩
    rw [textTail]
    simp only [hp, hc, hcs]

theorem yields_textTail_plain {c : Char} {cs : List Char} (hquote : c ≠ '"')
    (hbackslash : c ≠ '\\') :
    Yields textTail (c :: s) cs r ↔
      isControl c = false ∧ ∃ cs', Yields textTail s cs' r ∧ cs = c :: cs' := by
  constructor
  · rintro ⟨h, he⟩
    rw [textTail] at he
    · split at he
      · cases he
      · next hc =>
        split at he
        · cases he
        · next cs' r' h' hcs =>
          cases he
          exact ⟨by simpa using hc, cs', ⟨h', hcs⟩, rfl⟩
    · exact hquote
    · exact hbackslash
  · rintro ⟨hc, cs', ⟨h', hcs⟩, rfl⟩
    refine ⟨Nat.le_succ_of_le h', ?_⟩
    rw [textTail]
    · simp only [hc, hcs]
      rfl
    · exact hquote
    · exact hbackslash

theorem chars?_char (c : Char) (ps : List Piece) :
    Piece.chars? (.char c :: ps) = (Piece.chars? ps).map (c :: ·) := by
  rw [Piece.chars?, Option.map_eq_bind]
  rfl

/-- A unit that is no surrogate stands for a character of its own. -/
theorem chars?_unit {n : Nat} (hhigh : isHighSurrogate n = false) (hlow : isLowSurrogate n = false)
    (ps : List Piece) :
    Piece.chars? (.unit n :: ps) = (Piece.chars? ps).map (Char.ofNat n :: ·) := by
  rcases ps with _ | ⟨c | m, ps⟩
  · simp [Piece.chars?, hhigh, hlow]
  · simp only [Piece.chars?, hhigh, hlow]
    cases Piece.chars? ps <;> rfl
  · rw [Piece.chars?, hhigh, hlow, Option.map_eq_bind]
    rfl

theorem chars?_pair {n m : Nat} (hhigh : isHighSurrogate n = true) (hlow : isLowSurrogate m = true)
    (ps : List Piece) :
    Piece.chars? (.unit n :: .unit m :: ps) = (Piece.chars? ps).map (pairValue n m :: ·) := by
  rw [Piece.chars?, hhigh, hlow, Option.map_eq_bind]
  rfl

/-- Only a pair begins with a high surrogate. -/
theorem exists_pair_of_chars? {n : Nat} {ps : List Piece} {cs : List Char}
    (hhigh : isHighSurrogate n = true) (h : Piece.chars? (.unit n :: ps) = some cs) :
    ∃ m ps', ps = .unit m :: ps' ∧ isLowSurrogate m = true := by
  rcases ps with _ | ⟨_ | m, ps⟩
  · simp [Piece.chars?, hhigh] at h
  · simp [Piece.chars?, hhigh] at h
  · cases hlow : isLowSurrogate m with
    | true => exact ⟨m, ps, rfl, hlow⟩
    | false => simp [Piece.chars?, hhigh, hlow] at h

theorem not_low_of_chars? {n : Nat} {ps : List Piece} {cs : List Char}
    (h : Piece.chars? (.unit n :: ps) = some cs) (hhigh : isHighSurrogate n = false) :
    isLowSurrogate n = false := by
  cases hlow : isLowSurrogate n with
  | false => rfl
  | true => rcases ps with _ | ⟨_ | m, ps⟩ <;> simp [Piece.chars?, hhigh, hlow] at h

theorem exists_pieces_of_yields {cs : List Char} (h : Yields textTail s cs r) :
    ∃ ps, Pieces s ps ('"' :: r) ∧ Piece.chars? ps = some cs := by
  induction hn : s.length using Nat.strongRecOn generalizing s cs with
  | ind n ih =>
    cases s with
    | nil =>
      obtain ⟨hr, he⟩ := h
      rw [textTail] at he
      cases he
    | cons c s =>
      by_cases hquote : c = '"'
      · subst hquote
        obtain ⟨rfl, rfl⟩ := yields_textTail_quote.mp h
        exact ⟨[], .nil, rfl⟩
      · by_cases hbackslash : c = '\\'
        · subst hbackslash
          obtain ⟨p, r₁, c, r₂, cs', hp, hc, hcs, rfl⟩ := yields_textTail_escape.mp h
          have hlt : r₂.length < n := by
            rw [← hn]
            exact Nat.lt_succ_of_le (Nat.le_trans hc.length_le hp.length_le)
          obtain ⟨ps, hps, htext⟩ := ih _ hlt hcs rfl
          have hp := yields_escape.mp hp
          cases p with
          | char d =>
            obtain ⟨rfl, rfl⟩ := yields_pure.mp hc
            refine ⟨.char d :: ps, .cons hp hps, ?_⟩
            rw [chars?_char, htext]
            rfl
          | unit n =>
            rcases yields_complete_unit.mp hc with
              ⟨hhigh, hlow, hvalue, rfl⟩ | ⟨hhigh, m, hlow, hm, hvalue⟩
            · refine ⟨.unit n :: ps, .cons hp hps, ?_⟩
              rw [chars?_unit hhigh hlow, htext, hvalue]
              rfl
            · refine ⟨.unit n :: .unit m :: ps, .cons hp (.cons hm hps), ?_⟩
              rw [chars?_pair hhigh hlow, htext, hvalue]
              rfl
        · obtain ⟨hc, cs', hcs, rfl⟩ := (yields_textTail_plain hquote hbackslash).mp h
          have hlt : s.length < n := by
            rw [← hn]
            exact Nat.lt_succ_self _
          obtain ⟨ps, hps, htext⟩ := ih _ hlt hcs rfl
          refine ⟨.char c :: ps, .cons (.plain hquote hbackslash hc) hps, ?_⟩
          rw [chars?_char, htext]
          rfl

theorem yields_textTail_of_pieces {ps : List Piece} {cs : List Char} (h : Pieces s ps ('"' :: r))
    (htext : Piece.chars? ps = some cs) : Yields textTail s cs r := by
  induction hn : ps.length using Nat.strongRecOn generalizing s ps cs with
  | ind n ih =>
    cases h with
    | nil =>
      cases htext
      exact yields_textTail_quote.mpr ⟨rfl, rfl⟩
    | @cons _ p s₁ ps _ hp hps =>
      have hlt : ps.length < n := by
        rw [← hn]
        exact Nat.lt_succ_self _
      cases p with
      | char c =>
        rw [chars?_char, Option.map_eq_some_iff] at htext
        obtain ⟨cs', htext, rfl⟩ := htext
        have hrest := ih _ hlt hps htext rfl
        cases hp with
        | plain hquote hbackslash hc =>
          exact (yields_textTail_plain hquote hbackslash).mpr ⟨hc, cs', hrest, rfl⟩
        | escape he =>
          exact yields_textTail_escape.mpr ⟨.char c, _, c, _, cs', yields_escape.mpr (.escape he),
            yields_pure.mpr ⟨rfl, rfl⟩, hrest, rfl⟩
      | unit n =>
        have hescape : ∃ s', s = '\\' :: s' := by
          cases hp
          exact ⟨_, rfl⟩
        obtain ⟨s', rfl⟩ := hescape
        cases hhigh : isHighSurrogate n with
        | false =>
          have hlow := not_low_of_chars? htext hhigh
          rw [chars?_unit hhigh hlow, Option.map_eq_some_iff] at htext
          obtain ⟨cs', htext, rfl⟩ := htext
          exact yields_textTail_escape.mpr ⟨.unit n, s₁, _, s₁, cs', yields_escape.mpr hp,
            yields_complete_unit.mpr (.inl ⟨hhigh, hlow, rfl, rfl⟩), ih _ hlt hps htext rfl, rfl⟩
        | true =>
          obtain ⟨m, ps', rfl, hlow⟩ := exists_pair_of_chars? hhigh htext
          rw [chars?_pair hhigh hlow, Option.map_eq_some_iff] at htext
          obtain ⟨cs', htext, rfl⟩ := htext
          cases hps with
          | @cons _ _ s₂ _ _ hm hps' =>
            have hlt' : ps'.length < _ := Nat.lt_of_succ_lt hlt
            exact yields_textTail_escape.mpr ⟨.unit n, s₁, _, s₂, cs', yields_escape.mpr hp,
              yields_complete_unit.mpr (.inr ⟨hhigh, m, hlow, hm, rfl⟩), ih _ hlt' hps' htext rfl, rfl⟩

/-- A kept string is one that could be passed over, with every surrogate in a pair. -/
theorem yields_textBody {text : String} : Yields textBody s text r ↔
    ∃ ps, Pieces s ps ('"' :: r) ∧ Piece.text? ps = some text := by
  refine yields_bind.trans ?_
  simp only [yields_pure, Piece.text?, Option.map_eq_some_iff]
  constructor
  · rintro ⟨cs, r₁, hcs, rfl, rfl⟩
    obtain ⟨ps, hps, htext⟩ := exists_pieces_of_yields hcs
    exact ⟨ps, hps, cs, htext, rfl⟩
  · rintro ⟨ps, hps, cs, htext, rfl⟩
    exact ⟨cs, r, yields_textTail_of_pieces hps htext, rfl, rfl⟩

end ImportAtlas.Json.Reader
