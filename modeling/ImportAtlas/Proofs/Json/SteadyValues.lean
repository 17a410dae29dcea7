-- SUMMARY: Typed values and whole texts are read alike in a text and in every longer one.
import ImportAtlas.Proofs.Json.SteadyTrees
import ImportAtlas.Proofs.Json.Typed
import Mathlib.Data.List.TakeWhile

/-! # Typed values and longer texts

Every typed reader is covered by one application of a rule for each step of its definition. A whole text has
to be followed by blanks only, so a longer one is accepted or refused by what stands behind the value. -/

namespace ImportAtlas.Json.Reader

variable {α σ : Type} {w s r : List Char}

/-! ## Typed values -/

section
variable {x : Reader α}

theorem steady_mismatch {c : Char} (expected : String) (h : Clear w .between (c :: s)) :
    Steady w .word (mismatch expected : Reader α) (c :: s) := by
  refine (Steady.peek h).bind fun o r hpeek _ => ?_
  obtain ⟨rfl, rfl⟩ := yields_peek.1 hpeek
  simp only [List.head?_cons]
  have hword : Clear w .word (c :: s) := h.word rfl
  split
  next => exact (steady_word rfl hword).bind fun _ _ _ _ => .fail _
  split
  next => exact (steady_word rfl hword).bind fun _ _ _ _ => .fail _
  split
  next => exact (steady_word rfl hword).bind fun _ _ _ _ => .fail _
  split
  next hc => exact (steady_number hc h).bind fun _ _ _ _ => .fail _
  split
  next hc =>
    subst hc
    exact .advance_bind h fun hrest => (steady_textBody hrest).bind fun _ _ _ _ => .fail _
  split
  next => exact .fail _
  split
  next => exact .fail _
  next => exact .refuse _

theorem steadyValue_text (expected : String) : SteadyValue w (text expected) := by
  refine ⟨rfl, fun {s} h => .token_bind (.inl rfl) h rfl fun c r _ hclear => ?_⟩
  split
  next hc => contradiction
  next hc =>
    cases hc
    exact .advance_bind hclear fun hrest => (steady_textBody hrest).word rfl
  next => exact steady_mismatch expected hclear

theorem steadyValue_flag : SteadyValue w flag := by
  refine ⟨rfl, fun {s} h => .token_bind (.inl rfl) h rfl fun c r _ hclear => ?_⟩
  have hword : Clear w .word (c :: r) := hclear.word rfl
  split
  next hc => contradiction
  next => exact (steady_word rfl hword).bind fun _ _ _ hclear => .pure hclear true
  next => exact (steady_word rfl hword).bind fun _ _ _ hclear => .pure hclear false
  next => exact steady_mismatch _ hclear

theorem steadyValue_null : SteadyValue w null := by
  refine ⟨rfl, fun {s} h => .token_bind (.inl rfl) h rfl fun c r _ hclear => ?_⟩
  split
  next hc => contradiction
  next => exact steady_word rfl (hclear.word rfl)
  next => exact steady_mismatch _ hclear

theorem steadyValue_nullable (hx : SteadyValue w x) : SteadyValue w (nullable x) := by
  have hnone : outcome (some <$> x) [] = .error .cutOff := by rw [outcome_map, hx.nil]; rfl
  refine ⟨(outcome_token_bind rfl _).trans hnone, fun {s} h => ?_⟩
  refine .token_bind (.inl rfl) h hnone fun c r _ hclear => ?_
  split
  next => exact (steady_word rfl (hclear.word rfl)).bind fun _ _ _ hclear => .pure hclear none
  next => exact (hx.steady hclear).map some

theorem mem_within {room : Nat} {inside : Nat → Reader α} (h : x ∈ within room inside) :
    ∃ room', x = inside room' := by
  cases room with
  | zero => contradiction
  | succ room => exact ⟨room, (Option.some.inj h).symm⟩

theorem steadyValue_list {room : Nat} {item : Nat → Reader α} (hitem : ∀ room, SteadyValue w (item room)) :
    SteadyValue w (list room item) := by
  refine ⟨rfl, fun {s} h => .token_bind (.inl rfl) h rfl fun c r _ hclear => ?_⟩
  split
  next hc => contradiction
  next hc =>
    cases hc
    refine steady_enter rfl (fun y hy hrest => ?_) hclear
    obtain ⟨room', rfl⟩ := mem_within hy
    exact steady_items (hitem room') hrest
  next => exact steady_mismatch _ hclear

/-! ### Records -/

theorem steadyValue_record {expected : String} {inside : Option (Reader α × Reader α)}
    (hinside : ∀ p ∈ inside, ∀ s, Clear w .between s → Steady w .word p.1 s ∧ Steady w .word p.2 s) :
    SteadyValue w (record expected inside) := by
  refine ⟨rfl, fun {s} h => .token_bind (.inl rfl) h rfl fun c r _ hclear => ?_⟩
  split
  next hc => contradiction
  next hc =>
    cases hc
    refine steady_enter rfl (fun y hy hrest => ?_) hclear
    obtain ⟨p, hp, rfl⟩ := Option.map_eq_some_iff.1 hy
    refine (hinside p hp r hrest).1.bind fun a r₁ _ hclear₁ => ?_
    exact (steady_closeArray hclear₁).bind fun _ r₂ _ hclear₂ => .pure (hclear₂.word rfl) a
  next hc =>
    cases hc
    refine steady_enter rfl (fun y hy hrest => ?_) hclear
    obtain ⟨p, hp, rfl⟩ := Option.map_eq_some_iff.1 hy
    refine (hinside p hp r hrest).2.bind fun a r₁ _ hclear₁ => ?_
    exact (steady_closeObject hclear₁).bind fun _ r₂ _ hclear₂ => .pure (hclear₂.word rfl) a
  next => exact steady_mismatch _ hclear

theorem steady_firstCell (hx : SteadyValue w x) (h : Clear w .between s) :
    Steady w .word (firstCell x) s := by
  refine (steady_hasFirstItem h).bind fun first r _ hclear => ?_
  split
  next => exact (hx.steady hclear).map some
  next => exact .pure (hclear.word rfl) none

theorem steady_nextCell (hx : SteadyValue w x) (h : Clear w .word s) : Steady w .word (nextCell x) s := by
  refine (steady_hasNextItem h).bind fun next r _ hclear => ?_
  split
  next => exact (hx.steady hclear).map some
  next => exact .pure (hclear.word rfl) none

theorem steady_required {q : Place} {index : Nat} {expected : String} (o : Option α) (h : Clear w q s) :
    Steady w q (required index expected o) s := by
  cases o with
  | none => exact .fail _
  | some a => exact .pure h a

theorem steady_present {q : Place} {name : String} (o : Option α) (h : Clear w q s) :
    Steady w q (present name o) s := by
  cases o with
  | none => exact .fail _
  | some a => exact .pure h a

theorem steady_once {name : String} {seen : Option α} (hx : SteadyValue w x) (h : Clear w .word s) :
    Steady w .word (once name seen x) s := by
  cases seen with
  | none => exact (steady_colon h).bind fun _ _ _ hclear => hx.steady hclear
  | some a => exact .fail _

/-- The value of a field, kept among the fields read so far. -/
theorem steady_field {name : String} {seen : Option α} {keep : α → σ} (hx : SteadyValue w x)
    (h : Clear w .word s) : Steady w .word (do return keep (← once name seen x)) s :=
  (steady_once hx h).bind fun a _ _ h => .pure h (keep a)

theorem steady_unknown (h : Clear w .word s) : Steady w .word unknown s :=
  (steady_colon h).bind fun _ _ _ hclear => steadyValue_skip.steady hclear

end

/-! ## Whole texts -/

section
variable {x : Reader α} {a : α} {c : Category} {text more : String}

/-- What comes of a whole text: a value, or the category of the problem. -/
def verdict (x : Reader α) (text : String) : Except Category α := (x.run text).mapError Problem.category

theorem outcome_finish (s : List Char) :
    outcome finish s = if s.all isBlank then .ok ((), []) else .error .grammar := by
  have hblank : s.all isBlank = true ↔ dropBlanks s = [] := by
    rw [dropBlanks, List.dropWhile_eq_nil_iff, List.all_eq_true]
  cases hs : dropBlanks s with
  | nil => rw [if_pos (hblank.2 hs), finish, outcome_token_bind hs]; rfl
  | cons c r =>
    have hsome : ¬ s.all isBlank = true := by
      rw [hblank, hs]
      exact List.cons_ne_nil c r
    rw [if_neg hsome, finish, outcome_token_bind hs]
    rfl

theorem verdict_eq (x : Reader α) (text : String) :
    verdict x text = (outcome (do let a ← x; finish; return a) text.toList).map Prod.fst := by
  unfold verdict run outcome
  cases (do let a ← x; finish; return a : Reader α) text.toList <;> rfl

theorem verdict_of_error (h : outcome x text.toList = .error c) : verdict x text = .error c := by
  rw [verdict_eq, outcome_bind_of_error h]
  rfl

theorem verdict_of_ok (h : outcome x text.toList = .ok (a, r)) :
    verdict x text = if r.all isBlank then .ok a else .error .grammar := by
  rw [verdict_eq, outcome_bind_of_ok h]
  have hfinish := outcome_finish r
  split
  next hr =>
    rw [if_pos hr] at hfinish
    rw [outcome_bind_of_ok hfinish]
    rfl
  next hr =>
    rw [if_neg hr] at hfinish
    rw [outcome_bind_of_error hfinish]
    rfl

/-- Behind a value there may be blanks and nothing else. -/
theorem verdict_append_of_ok (hx : SteadyValue more.toList x)
    (hsplit : splitsNumber text.toList more.toList = false) (h : verdict x text = .ok a) :
    verdict x (text ++ more) = if more.toList.all isBlank then .ok a else .error .grammar := by
  have hsteady := hx.steady (clear_iff.2 hsplit)
  rw [Steady, ← String.toList_append] at hsteady
  cases hs : outcome x text.toList with
  | error c =>
    rw [verdict_of_error hs] at h
    contradiction
  | ok t =>
    obtain ⟨b, r⟩ := t
    rw [hs] at hsteady
    rw [verdict_of_ok hs] at h
    split at h
    next hr =>
      obtain rfl := Except.ok.inj h
      rw [verdict_of_ok hsteady.1, List.all_append, hr, Bool.true_and]
    next => contradiction

/-- The first problem is final, unless it is the end of the text. -/
theorem verdict_append_of_error (hx : SteadyValue more.toList x)
    (hsplit : splitsNumber text.toList more.toList = false) (h : verdict x text = .error c)
    (hc : c ≠ .cutOff) : verdict x (text ++ more) = .error c := by
  have hsteady := hx.steady (clear_iff.2 hsplit)
  rw [Steady, ← String.toList_append] at hsteady
  cases hs : outcome x text.toList with
  | error c' =>
    rw [hs] at hsteady
    rw [verdict_of_error hs] at h
    obtain rfl := Except.error.inj h
    exact verdict_of_error (hsteady.resolve_left hc)
  | ok t =>
    obtain ⟨b, r⟩ := t
    rw [hs] at hsteady
    rw [verdict_of_ok hs] at h
    split at h
    next => contradiction
    next hr =>
      obtain rfl := Except.error.inj h
      rw [verdict_of_ok hsteady.1, List.all_append, Bool.eq_false_iff.2 hr]
      rfl

end

end ImportAtlas.Json.Reader

namespace ImportAtlas.Json

variable {s r : List Char}

/-! ## Where a document ends -/

theorem Blanks.suffix (h : Blanks s r) : r <:+ s := by
  induction h with
  | nil => exact List.suffix_rfl
  | cons _ _ ih => exact ih.trans (List.suffix_cons _ _)

theorem Pieces.suffix {ps : List Piece} (h : Pieces s ps r) : r <:+ s := by
  induction h with
  | nil => exact List.suffix_rfl
  | cons hp _ ih =>
    refine ih.trans ?_
    cases hp with
    | plain => exact List.suffix_cons _ _
    | escape => exact List.suffix_append [_, _] _
    | unit => exact List.suffix_append [_, _, _, _, _, _] _

theorem Quoted.suffix {ps : List Piece} (h : Quoted s ps r) : r <:+ s := by
  obtain ⟨s₁, rfl, hps⟩ := h
  exact ((List.suffix_cons _ r).trans hps.suffix).trans (List.suffix_cons _ s₁)

theorem Fraction.suffix {ds : List Char} (h : Fraction s ds r) : r <:+ s := by
  cases h with
  | absent => exact List.suffix_rfl
  | present => exact List.suffix_append _ r

theorem Exponent.suffix {x : Option (Bool × List Char)} (h : Exponent s x r) : r <:+ s := by
  cases h with
  | absent => exact List.suffix_rfl
  | present => exact List.suffix_append _ r

theorem Numeral.suffix {n : Number} (h : Numeral s n r) : r <:+ s := by
  obtain ⟨-, s₁, s₂, rfl, hfraction, hexponent⟩ := h
  exact (hexponent.suffix.trans hfraction.suffix).trans (List.suffix_append _ s₁)

theorem Spells.suffix {φ : Phrase} (h : Spells s φ r) : r <:+ s := by
  have hskip {c : Char} {s r : List Char} (h : c :: r <:+ s) : r <:+ s := (List.suffix_cons c r).trans h
  induction h with
  | null | true => exact List.suffix_append [_, _, _, _] _
  | false => exact List.suffix_append [_, _, _, _, _] _
  | number hn => exact hn.suffix
  | string hs => exact hs.suffix
  | emptyArray hs | emptyObject hs => exact (hskip hs.suffix).trans (List.suffix_cons _ _)
  | array _ ih | object _ ih => exact (hskip ih).trans (List.suffix_cons _ _)
  | element hbefore _ hafter ih => exact (hafter.suffix.trans ih).trans hbefore.suffix
  | lastElement _ ih | lastMember _ ih => exact ih
  | moreElements _ _ ih ih' | moreMembers _ _ ih ih' => exact ih'.trans (hskip ih)
  | member hbefore hk hcolon _ ih =>
    exact ((ih.trans (hskip hcolon.suffix)).trans hk.suffix).trans hbefore.suffix

/-- An array or an object ends in its closing bracket. -/
theorem exists_close_of_spells {t : Tree} (h : Spells s (.value t) r)
    (ht : (∃ xs, t = .array xs) ∨ ∃ es, t = .object es) : ∃ c, isNumeric c = false ∧ c :: r <:+ s := by
  rcases ht with ⟨xs, rfl⟩ | ⟨es, rfl⟩
  · cases h with
    | emptyArray hs => exact ⟨']', rfl, hs.suffix.trans (List.suffix_cons _ _)⟩
    | array hs => exact ⟨']', rfl, hs.suffix.trans (List.suffix_cons _ _)⟩
  · cases h with
    | emptyObject hs => exact ⟨'}', rfl, hs.suffix.trans (List.suffix_cons _ _)⟩
    | object hs => exact ⟨'}', rfl, hs.suffix.trans (List.suffix_cons _ _)⟩

theorem isNumeric_of_isBlank {c : Char} (hc : isBlank c = true) : isNumeric c = false := by
  simp only [isBlank, Bool.or_eq_true, beq_iff_eq] at hc
  rcases hc with ((rfl | rfl) | rfl) | rfl <;> rfl

theorem Blanks.mem {c : Char} (h : Blanks s r) (hc : c ∈ s) : isBlank c = true ∨ c ∈ r := by
  induction h with
  | nil => exact .inr hc
  | cons hd _ ih =>
    rcases List.mem_cons.1 hc with rfl | hc
    · exact .inl hd
    · exact ih hc

theorem exists_close_of_element {t : Tree} (h : Spells s (.element t) r)
    (ht : (∃ xs, t = .array xs) ∨ ∃ es, t = .object es) :
    ∃ u c r', s = u ++ c :: r' ∧ isNumeric c = false ∧ Blanks r' r := by
  cases h with
  | element hbefore hvalue hafter =>
    obtain ⟨c, hc, hclose⟩ := exists_close_of_spells hvalue ht
    obtain ⟨u, hu⟩ := hclose.trans hbefore.suffix
    exact ⟨u, c, _, hu.symm, hc, hafter⟩

theorem endsInNumber_of_document {text : String} {t : Tree} (h : Document text t)
    (ht : (∃ xs, t = .array xs) ∨ ∃ es, t = .object es) : endsInNumber text.toList = false := by
  obtain ⟨u, c, r, htext, hc, hr⟩ := exists_close_of_element h ht
  have hblanks : ∀ d ∈ r, isNumeric d = false := by
    intro d hd
    exact isNumeric_of_isBlank ((hr.mem hd).resolve_right List.not_mem_nil)
  rw [endsInNumber, htext, Place.behind_append, Place.behind_cons]
  exact Place.not_isNumber_behind (Place.not_isNumber_next hc) hblanks

end ImportAtlas.Json
