-- SUMMARY: What the reader of numbers takes: a number as the grammar spells it, as far as it goes.
import ImportAtlas.Proofs.Json.Yields

/-! # Numbers

The grammar lets a number stop at any of its digits; the reader goes on as long as it can and then
refuses a number that is cut off. So it takes a number exactly where the grammar spells one and nothing
that could continue it comes next. What the reader would report at the end of the text plays no part. -/

namespace ImportAtlas.Json.Reader

variable {s r : List Char}

/-- No digit comes next. -/
def NoDigit (r : List Char) : Prop := ∀ c ∈ r.head?, isDigit c = false

theorem noDigit_cons {c : Char} (hc : isDigit c = false) : NoDigit (c :: r) := by
  intro d hd
  cases hd
  exact hc

theorem yields_digits {ds : List Char} :
    Yields digits s ds r ↔ s = ds ++ r ∧ AllDigits ds ∧ NoDigit r := by
  constructor
  · rintro ⟨h, he⟩
    cases he
    refine ⟨List.takeWhile_append_dropWhile.symm, ?_, ?_⟩
    · intro d hd
      exact List.all_eq_true.mp List.all_takeWhile d hd
    · intro c hc
      have hnot := List.head?_dropWhile_not isDigit s
      rw [Option.mem_def.mp hc] at hnot
      simpa using hnot
  · rintro ⟨rfl, hds, hr⟩
    have hstop : r.takeWhile isDigit = [] ∧ r.dropWhile isDigit = r := by
      cases r with
      | nil => exact ⟨rfl, rfl⟩
      | cons c r =>
        have hc := hr c rfl
        simp [hc]
    have htake : (ds ++ r).takeWhile isDigit = ds := by
      rw [List.takeWhile_append_of_pos hds, hstop.1, List.append_nil]
    have hdrop : (ds ++ r).dropWhile isDigit = r := by
      rw [List.dropWhile_append_of_pos hds, hstop.2]
    refine ⟨by simp, ?_⟩
    simp only [digits, htake, hdrop]

theorem yields_digits_cons {c : Char} {ds : List Char} (hc : isDigit c = true) :
    Yields digits (c :: s) ds r ↔ c :: s = ds ++ r ∧ ds ≠ [] ∧ AllDigits ds ∧ NoDigit r := by
  rw [yields_digits]
  constructor
  · rintro ⟨h, hds, hr⟩
    refine ⟨h, ?_, hds, hr⟩
    rintro rfl
    rw [List.nil_append] at h
    subst h
    rw [hr c rfl] at hc
    cases hc
  · rintro ⟨h, -, hds, hr⟩
    exact ⟨h, hds, hr⟩

theorem isDigit_of_append {c : Char} {ds : List Char} (h : c :: s = ds ++ r) (hne : ds ≠ [])
    (hds : AllDigits ds) : isDigit c = true := by
  cases ds with
  | nil => exact absurd rfl hne
  | cons d ds =>
    cases h
    exact hds c (.head _)

theorem yields_minus {b : Bool} : Yields minus s b r ↔
    (b = true ∧ s = '-' :: r) ∨ (b = false ∧ s = r ∧ r.head? ≠ some '-') := by
  constructor
  · rintro ⟨h, he⟩
    unfold minus at he
    split at he
    · cases he
      exact .inl ⟨rfl, rfl⟩
    · next hne =>
      cases he
      refine .inr ⟨rfl, rfl, ?_⟩
      cases s with
      | nil => exact fun h => nomatch h
      | cons c s =>
        intro hc
        cases hc
        exact hne s rfl
  · rintro (⟨rfl, rfl⟩ | ⟨rfl, rfl, hne⟩)
    · exact ⟨Nat.le_succ _, rfl⟩
    · refine ⟨Nat.le_refl _, ?_⟩
      unfold minus
      split
      · exact absurd rfl hne
      · rfl

theorem yields_wholePart_zero {cut : Cause} {ds : List Char} :
    Yields (wholePart cut) ('0' :: s) ds r ↔ ds = ['0'] ∧ s = r ∧ NoDigit r := by
  constructor
  · rintro ⟨h, he⟩
    rw [wholePart, if_pos rfl] at he
    split at he
    · cases he
    · next hs =>
      cases he
      refine ⟨rfl, rfl, ?_⟩
      intro c hc
      rw [Option.mem_def.mp hc] at hs
      simpa using hs
  · rintro ⟨rfl, rfl, hs⟩
    refine ⟨Nat.le_succ _, ?_⟩
    rw [wholePart, if_pos rfl]
    cases s with
    | nil => rfl
    | cons c s =>
      have hc := hs c rfl
      simp [hc]

theorem yields_wholePart {cut : Cause} {ds : List Char} :
    Yields (wholePart cut) s ds r ↔ s = ds ++ r ∧ IsWhole ds ∧ NoDigit r := by
  cases s with
  | nil =>
    constructor
    · rintro ⟨h, he⟩
      cases he
    · rintro ⟨h, rfl | ⟨hne, -⟩, -⟩
      · cases h
      · exact absurd (List.append_eq_nil_iff.mp h.symm).1 hne
  | cons c s =>
    by_cases hzero : c = '0'
    · subst hzero
      rw [yields_wholePart_zero]
      constructor
      · rintro ⟨rfl, rfl, hr⟩
        exact ⟨rfl, .inl rfl, hr⟩
      · rintro ⟨h, rfl | ⟨hne, hhead, -⟩, hr⟩
        · cases h
          exact ⟨rfl, rfl, hr⟩
        · cases ds with
          | nil => exact absurd rfl hne
          | cons d ds =>
            cases h
            exact absurd rfl hhead
    · cases hc : isDigit c with
      | false =>
        constructor
        · rintro ⟨h, he⟩
          rw [wholePart, if_neg hzero, hc] at he
          cases he
        · rintro ⟨h, rfl | ⟨hne, -, hds⟩, -⟩
          · cases h
            exact absurd rfl hzero
          · rw [isDigit_of_append h hne hds] at hc
            cases hc
      | true =>
        rw [Yields, wholePart, if_neg hzero, hc, if_pos rfl, ← Yields, yields_digits_cons hc]
        constructor
        · rintro ⟨h, hne, hds, hr⟩
          refine ⟨h, .inr ⟨hne, ?_, hds⟩, hr⟩
          cases ds with
          | nil => exact absurd rfl hne
          | cons d ds =>
            cases h
            intro hd
            exact hzero (Option.some.inj hd)
        · rintro ⟨h, rfl | ⟨hne, -, hds⟩, hr⟩
          · cases h
            exact absurd rfl hzero
          · exact ⟨h, hne, hds, hr⟩

theorem yields_fractionPart_point {cut : Cause} {ds : List Char} :
    Yields (fractionPart cut) ('.' :: s) ds r ↔ s = ds ++ r ∧ ds ≠ [] ∧ AllDigits ds ∧ NoDigit r := by
  cases s with
  | nil =>
    constructor
    · rintro ⟨h, he⟩
      cases he
    · rintro ⟨h, hne, -⟩
      exact absurd (List.append_eq_nil_iff.mp h.symm).1 hne
  | cons c s =>
    constructor
    · rintro ⟨h, he⟩
      rw [fractionPart] at he
      split at he
      · next hc =>
        split at he
        · cases he
        · next ds' r' h' hds =>
          cases he
          exact (yields_digits_cons hc).mp ⟨h', hds⟩
      · cases he
    · rintro ⟨h, hne, hds, hr⟩
      have hc := isDigit_of_append h hne hds
      obtain ⟨h', he⟩ := (yields_digits_cons hc).mpr ⟨h, hne, hds, hr⟩
      refine ⟨length_le_cons_of_le '.' h', ?_⟩
      simp only [fractionPart, hc, if_true, he]

theorem yields_fractionPart {cut : Cause} {ds : List Char} : Yields (fractionPart cut) s ds r ↔
    Fraction s ds r ∧ (ds = [] → r.head? ≠ some '.') ∧ (ds ≠ [] → NoDigit r) := by
  by_cases hpoint : s.head? = some '.'
  · obtain ⟨s, rfl⟩ := List.head?_eq_some_iff.mp hpoint
    rw [yields_fractionPart_point]
    constructor
    · rintro ⟨rfl, hne, hds, hr⟩
      exact ⟨.present hne hds, fun h => absurd h hne, fun _ => hr⟩
    · rintro ⟨hs, hnil, hcons⟩
      cases hs with
      | absent => exact absurd rfl (hnil rfl)
      | present hne hds => exact ⟨rfl, hne, hds, hcons hne⟩
  · have hpure : fractionPart cut s = Reader.pure [] s := by
      unfold fractionPart
      split
      · exact absurd rfl hpoint
      · exact absurd rfl hpoint
      · rfl
    rw [Yields, hpure]
    refine (yields_pure (α := List Char)).trans ?_
    constructor
    · rintro ⟨rfl, rfl⟩
      exact ⟨.absent, fun _ => hpoint, fun h => absurd rfl h⟩
    · rintro ⟨hs, -, -⟩
      cases hs with
      | absent => exact ⟨rfl, rfl⟩
      | present => exact absurd rfl hpoint

theorem yields_exponentSign {b : Bool} : Yields exponentSign s b r ↔
    ∃ sign, s = sign ++ r ∧ ExponentSign sign b ∧
      (sign = [] → r.head? ≠ some '+' ∧ r.head? ≠ some '-') := by
  by_cases hplus : s.head? = some '+'
  · obtain ⟨s, rfl⟩ := List.head?_eq_some_iff.mp hplus
    constructor
    · rintro ⟨h, he⟩
      rw [exponentSign] at he
      cases he
      exact ⟨['+'], rfl, .plus, fun h => nomatch h⟩
    · rintro ⟨sign, hs, hsign, hnone⟩
      cases hsign with
      | none =>
        cases hs
        exact absurd rfl (hnone rfl).1
      | plus =>
        cases hs
        exact ⟨Nat.le_succ _, rfl⟩
      | minus => cases hs
  · have hminus : exponentSign s = minus s := by
      unfold exponentSign
      split
      · exact absurd rfl hplus
      · rfl
    rw [Yields, hminus, ← Yields, yields_minus]
    constructor
    · rintro (⟨rfl, rfl⟩ | ⟨rfl, rfl, hne⟩)
      · exact ⟨['-'], rfl, .minus, fun h => nomatch h⟩
      · exact ⟨[], rfl, .none, fun _ => ⟨hplus, hne⟩⟩
    · rintro ⟨sign, hs, hsign, hnone⟩
      cases hsign with
      | none => exact .inr ⟨rfl, hs, (hnone rfl).2⟩
      | plus =>
        subst hs
        exact absurd rfl hplus
      | minus => exact .inl ⟨rfl, hs⟩

/-- Digits of which there is at least one. -/
theorem yields_exponentDigits {cut : Cause} {ds : List Char} : Yields (exponentDigits cut) s ds r ↔
    s = ds ++ r ∧ ds ≠ [] ∧ AllDigits ds ∧ NoDigit r := by
  cases s with
  | nil =>
    constructor
    · rintro ⟨h, he⟩
      cases he
    · rintro ⟨h, hne, -⟩
      exact absurd (List.append_eq_nil_iff.mp h.symm).1 hne
  | cons c s =>
    cases hc : isDigit c with
    | false =>
      constructor
      · rintro ⟨h, he⟩
        rw [exponentDigits, hc] at he
        cases he
      · rintro ⟨h, hne, hds, -⟩
        rw [isDigit_of_append h hne hds] at hc
        cases hc
    | true => rw [Yields, exponentDigits, hc, if_pos rfl, ← Yields, yields_digits_cons hc]

theorem head?_ne_of_isDigit {c : Char} {ds : List Char} (hne : ds ≠ []) (hds : AllDigits ds)
    (hc : isDigit c = false) : (ds ++ r).head? ≠ some c := by
  cases ds with
  | nil => exact absurd rfl hne
  | cons d ds =>
    intro hd
    cases hd
    rw [hds c (.head _)] at hc
    cases hc

theorem yields_exponentPart_mark {cut : Cause} {e : Char} {x : Option (Bool × List Char)}
    (he : e = 'e' ∨ e = 'E') : Yields (exponentPart cut) (e :: s) x r ↔
      ∃ sign negative ds, s = sign ++ ds ++ r ∧ ExponentSign sign negative ∧ ds ≠ [] ∧
        AllDigits ds ∧ NoDigit r ∧ some (negative, ds) = x := by
  have hopen : Yields (exponentPart cut) (e :: s) x r ↔ Yields (do
      let negative ← exponentSign
      let ds ← exponentDigits cut
      return some (negative, ds)) s x r := by
    rw [exponentPart, yields_peek_bind]
    rcases he with rfl | rfl <;> simp
  rw [hopen]
  simp only [yields_bind, yields_pure, yields_exponentSign, yields_exponentDigits]
  constructor
  · rintro ⟨negative, s₁, ⟨sign, rfl, hsign, -⟩, ds, s₂, ⟨rfl, hne, hds, hr⟩, hx, rfl⟩
    exact ⟨sign, negative, ds, (List.append_assoc ..).symm, hsign, hne, hds, hr, hx⟩
  · rintro ⟨sign, negative, ds, rfl, hsign, hne, hds, hr, hx⟩
    refine ⟨negative, ds ++ r, ⟨sign, List.append_assoc .., hsign, fun _ => ⟨?_, ?_⟩⟩,
      ds, r, ⟨rfl, hne, hds, hr⟩, hx, rfl⟩
    · exact head?_ne_of_isDigit hne hds rfl
    · exact head?_ne_of_isDigit hne hds rfl

theorem yields_exponentPart {cut : Cause} {x : Option (Bool × List Char)} :
    Yields (exponentPart cut) s x r ↔ Exponent s x r ∧
      (x = none → r.head? ≠ some 'e' ∧ r.head? ≠ some 'E') ∧ (x ≠ none → NoDigit r) := by
  by_cases hmark : s.head? = some 'e' ∨ s.head? = some 'E'
  · obtain ⟨e, s, he, rfl⟩ : ∃ e s', (e = 'e' ∨ e = 'E') ∧ s = e :: s' := by
      rcases hmark with h | h
      · obtain ⟨s', hs⟩ := List.head?_eq_some_iff.mp h
        exact ⟨'e', s', .inl rfl, hs⟩
      · obtain ⟨s', hs⟩ := List.head?_eq_some_iff.mp h
        exact ⟨'E', s', .inr rfl, hs⟩
    rw [yields_exponentPart_mark he]
    constructor
    · rintro ⟨sign, negative, ds, rfl, hsign, hne, hds, hr, rfl⟩
      refine ⟨?_, (fun h => nomatch h), fun _ => hr⟩
      rw [← List.cons_append, ← List.cons_append]
      exact .present he hsign hne hds
    · rintro ⟨hs, hnone, hsome⟩
      generalize ht : e :: s = t at hs
      cases hs with
      | absent =>
        subst ht
        rcases he with rfl | rfl
        · exact absurd rfl (hnone rfl).1
        · exact absurd rfl (hnone rfl).2
      | @present _ sign negative ds _ _ hsign hne hds =>
        cases ht
        exact ⟨sign, negative, ds, rfl, hsign, hne, hds, hsome (Option.some_ne_none _), rfl⟩
  · rw [not_or] at hmark
    have hnone : Yields (exponentPart cut) s x r ↔ Yields (pure none) s x r := by
      rw [exponentPart, yields_peek_bind]
      split
      · next h => exact absurd h hmark.1
      · next h => exact absurd h hmark.2
      · rfl
    rw [hnone, yields_pure]
    constructor
    · rintro ⟨rfl, rfl⟩
      exact ⟨.absent, fun _ => hmark, fun h => absurd rfl h⟩
    · rintro ⟨hs, -, -⟩
      cases hs with
      | absent => exact ⟨rfl, rfl⟩
      | present he =>
        rcases he with rfl | rfl
        · exact absurd rfl hmark.1
        · exact absurd rfl hmark.2

/-- The number goes on no further. -/
def Stops (n : Number) (r : List Char) : Prop :=
  NoDigit r ∧ (n.exponent = none → r.head? ≠ some 'e' ∧ r.head? ≠ some 'E') ∧
    (n.exponent = none → n.fraction = [] → r.head? ≠ some '.')

theorem noDigit_of_exponent {x : Option (Bool × List Char)} (h : Exponent s x r) (hr : NoDigit r) :
    NoDigit s := by
  cases h with
  | absent => exact hr
  | present he =>
    rcases he with rfl | rfl
    · exact noDigit_cons rfl
    · exact noDigit_cons rfl

theorem noDigit_of_fraction {ds : List Char} (h : Fraction s ds r) (hr : NoDigit r) : NoDigit s := by
  cases h with
  | absent => exact hr
  | present => exact noDigit_cons rfl

theorem head?_ne_of_isWhole {ds : List Char} (h : IsWhole ds) : (ds ++ r).head? ≠ some '-' := by
  rcases h with rfl | ⟨hne, -, hds⟩
  · rintro ⟨⟩
  · exact head?_ne_of_isDigit hne hds rfl

theorem yields_numeral {cut : Cause} {n : Number} :
    Yields (numeral cut) s n r ↔ Numeral s n r ∧ Stops n r := by
  simp only [numeral, yields_bind, yields_pure, yields_minus, yields_wholePart, yields_fractionPart,
    yields_exponentPart]
  constructor
  · rintro ⟨negative, s₁, hsign, whole, s₂, ⟨rfl, hwhole, hs₂⟩, fraction, s₃, ⟨hf, hpoint, hs₃⟩,
      exponent, s₄, ⟨he, hmark, hr⟩, rfl, rfl⟩
    have hsign : s = (if negative then ['-'] else []) ++ whole ++ s₂ := by
      rcases hsign with ⟨rfl, rfl⟩ | ⟨rfl, rfl, -⟩
      · rfl
      · rfl
    refine ⟨⟨hwhole, s₂, s₃, hsign, hf, he⟩, ?_, hmark, ?_⟩
    · cases he with
      | present => exact hr (Option.some_ne_none _)
      | absent =>
        cases hf with
        | present hne => exact hs₃ hne
        | absent => exact hs₂
    · rintro hnone hnil
      change exponent = none at hnone
      subst hnone
      cases he
      exact hpoint hnil
  · rintro ⟨⟨hwhole, s₁, s₂, rfl, hf, he⟩, hr, hmark, hpoint⟩
    have hs₂ := noDigit_of_exponent he hr
    refine ⟨n.negative, n.whole ++ s₁, ?_, n.whole, s₁, ⟨rfl, hwhole, noDigit_of_fraction hf hs₂⟩,
      n.fraction, s₂, ⟨hf, ?_, fun _ => hs₂⟩, n.exponent, r, ⟨he, hmark, fun _ => hr⟩, rfl, rfl⟩
    · cases n.negative with
      | true => exact .inl ⟨rfl, by simp⟩
      | false => exact .inr ⟨rfl, by simp, head?_ne_of_isWhole hwhole⟩
    · intro hnil
      cases hx : n.exponent with
      | none =>
        rw [hx] at he
        cases he
        exact hpoint hx hnil
      | some x =>
        rw [hx] at he
        cases he with
        | present he =>
          rcases he with rfl | rfl
          · rintro ⟨⟩
          · rintro ⟨⟩

end ImportAtlas.Json.Reader
