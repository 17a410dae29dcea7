-- SUMMARY: Words, strings and numbers are read alike in a text and in every longer one.
import ImportAtlas.Proofs.Json.Steady

/-! # Tokens and longer texts

A word and a string end of themselves, so only their places have to be followed. A number goes on as long as
there is something to go on with; its parts are followed from part to part, and at the end of the text it
matters what stands behind. -/

namespace ImportAtlas.Json.Reader

variable {α : Type} {w s r : List Char} {q : Place}

/-! ## Words -/

theorem outcome_word_cons (c : Char) (cs s : List Char) :
    outcome (word (c :: cs)) (c :: s) = outcome (word cs) s := by
  simp only [outcome, result, word, reduceIte]
  cases word cs s <;> rfl

theorem outcome_word_of_ne {c d : Char} (h : d ≠ c) (cs s : List Char) :
    outcome (word (c :: cs)) (d :: s) = .error .grammar := by
  simp only [outcome, result, word, if_neg h]
  rfl

/-- A word is read in its own place. -/
theorem steady_word {cs : List Char} (hcs : cs.all (Place.apart · == .word) = true) (h : Clear w .word s) :
    Steady w .word (word cs) s := by
  induction cs generalizing s with
  | nil => exact .of_ok rfl rfl h
  | cons c cs ih =>
    rw [List.all_cons, Bool.and_eq_true, beq_iff_eq] at hcs
    cases s with
    | nil => exact .cutOff rfl
    | cons d s =>
      by_cases hd : d = c
      · subst hd
        have hrest : Clear w .word s := by
          refine h.congr ?_
          rw [Place.behind_cons, Place.next, hcs.1]
        exact (ih hcs.2 hrest).congr (outcome_word_cons d cs s) (outcome_word_cons d cs (s ++ w))
      · exact .of_error (outcome_word_of_ne hd cs s) (outcome_word_of_ne hd cs (s ++ w))

theorem steady_colon (h : Clear w .word s) : Steady w .between colon s := by
  refine .token_bind (.inr rfl) h rfl fun c r _ hclear => ?_
  split
  next hc => contradiction
  next hc =>
    cases hc
    exact .advance hclear
  next => exact .refuse _

/-! ## Strings -/

theorem byteCount_append (s t : List Char) : byteCount (s ++ t) = byteCount s + byteCount t := by
  induction s with
  | nil => exact (Nat.zero_add _).symm
  | cons c s ih =>
    have hbytes (s : List Char) : byteCount (c :: s) = c.utf8Size + byteCount s := rfl
    rw [List.cons_append, hbytes, hbytes, ih, Nat.add_assoc]

theorem utf8Size_of_hexValue? {c : Char} {n : Nat} (h : hexValue? c = some n) : c.utf8Size = 1 := by
  have hle {d : Char} (hd : c ≤ d) (hval : d.val ≤ 127) : c.val ≤ 127 := UInt32.le_trans hd hval
  rw [Char.utf8Size_eq_one_iff]
  unfold hexValue? at h
  split at h
  next hc => exact hle hc.2 (by decide)
  next =>
    split at h
    next hc => exact hle hc.2 (by decide)
    next =>
      split at h
      next hc => exact hle hc.2 (by decide)
      next => contradiction

theorem next_string_of_hexValue? {c : Char} {n : Nat} (h : hexValue? c = some n) :
    Place.string.next c = .string := by
  have hquote : c ≠ '"' := by
    rintro rfl
    cases h
  have hbackslash : c ≠ '\\' := by
    rintro rfl
    cases h
  rw [Place.next, if_neg hquote, if_neg hbackslash]

/-- Hexadecimal digits take one byte each, so few digits that take many bytes are none. -/
theorem exists_hexValue?_eq_none (h : s.length < byteCount s) : ∃ c ∈ s, hexValue? c = none := by
  induction s with
  | nil => contradiction
  | cons c s ih =>
    cases hc : hexValue? c with
    | none => exact ⟨c, List.mem_cons_self, hc⟩
    | some n =>
      have hbytes : byteCount (c :: s) = c.utf8Size + byteCount s := rfl
      rw [hbytes, utf8Size_of_hexValue? hc, List.length_cons] at h
      obtain ⟨d, hd, hbad⟩ := ih (by omega)
      exact ⟨d, List.mem_cons_of_mem c hd, hbad⟩

theorem outcome_hexUnit_of_short (h : s.length < 4) :
    outcome hexUnit s = .error (if byteCount s < 4 then .cutOff else .grammar) := by
  have hunit : hexUnit s = .error (.before (if byteCount s < 4 then .endInString else .invalidEscape) []) := by
    unfold hexUnit
    split
    next => simp only [List.length_cons] at h; omega
    next => rfl
  rw [outcome_of_error hunit, Problem.category_before]
  split <;> rfl

theorem outcome_hexUnit_cons (d₁ d₂ d₃ d₄ : Char) (r : List Char) :
    outcome hexUnit (d₁ :: d₂ :: d₃ :: d₄ :: r) =
      match hexValue? d₁, hexValue? d₂, hexValue? d₃, hexValue? d₄ with
      | some a, some b, some c, some d => .ok (((a * 16 + b) * 16 + c) * 16 + d, r)
      | _, _, _, _ => .error .grammar := by
  simp only [outcome, result, hexUnit]
  cases hexValue? d₁ <;> cases hexValue? d₂ <;> cases hexValue? d₃ <;> cases hexValue? d₄ <;> rfl

theorem exists_four (h : ¬ s.length < 4) : ∃ d₁ d₂ d₃ d₄ r, s = d₁ :: d₂ :: d₃ :: d₄ :: r := by
  rcases s with _ | ⟨d₁, _ | ⟨d₂, _ | ⟨d₃, _ | ⟨d₄, r⟩⟩⟩⟩
  all_goals simp at h
  exact ⟨d₁, d₂, d₃, d₄, r, rfl⟩

/-- A character that is no digit is refused as soon as four bytes are there. -/
theorem outcome_hexUnit_of_bad {c : Char} (hc : c ∈ s.take 4) (hbad : hexValue? c = none)
    (hbytes : 4 ≤ byteCount s) : outcome hexUnit s = .error .grammar := by
  by_cases hs : s.length < 4
  · rw [outcome_hexUnit_of_short hs, if_neg (by omega)]
  · obtain ⟨d₁, d₂, d₃, d₄, r, rfl⟩ := exists_four hs
    rw [outcome_hexUnit_cons]
    split
    next h₁ h₂ h₃ h₄ =>
      have hmem : c ∈ [d₁, d₂, d₃, d₄] := hc
      simp only [List.mem_cons, List.not_mem_nil, or_false] at hmem
      rcases hmem with rfl | rfl | rfl | rfl <;> simp_all
    next => rfl

theorem steady_hexUnit (h : Clear w .string s) : Steady w .string hexUnit s := by
  by_cases hs : s.length < 4
  · have hshort := outcome_hexUnit_of_short hs
    by_cases hbytes : byteCount s < 4
    · rw [if_pos hbytes] at hshort
      exact .cutOff hshort
    · rw [if_neg hbytes] at hshort
      obtain ⟨c, hc, hbad⟩ : ∃ c ∈ s, hexValue? c = none := exists_hexValue?_eq_none (by omega)
      refine .of_error hshort (outcome_hexUnit_of_bad ?_ hbad ?_)
      · rw [List.take_append, List.take_of_length_le (Nat.le_of_lt hs)]
        exact List.mem_append_left _ hc
      · rw [byteCount_append]
        omega
  · obtain ⟨d₁, d₂, d₃, d₄, r, rfl⟩ := exists_four hs
    have hunit := outcome_hexUnit_cons d₁ d₂ d₃ d₄
    simp only [Steady, List.cons_append, hunit]
    split
    next heq =>
      split at heq
      next h₁ h₂ h₃ h₄ =>
        obtain ⟨rfl, rfl⟩ := Prod.mk.inj (Except.ok.inj heq)
        refine ⟨rfl, h.congr ?_⟩
        simp only [Place.behind_cons, next_string_of_hexValue? h₁, next_string_of_hexValue? h₂,
          next_string_of_hexValue? h₃, next_string_of_hexValue? h₄]
      next => contradiction
    next heq =>
      split at heq
      next => contradiction
      next => exact .inr heq

theorem outcome_escape_unit (s : List Char) :
    outcome escape ('u' :: s) = outcome (Piece.unit <$> hexUnit) s := by
  rw [outcome_map]
  simp only [outcome, result, escape]
  cases hexUnit s <;> rfl

theorem steady_escape (h : Clear w .escape s) : Steady w .string escape s := by
  cases s with
  | nil => exact .cutOff rfl
  | cons c s =>
    have hrest : Clear w .string s := h
    by_cases hu : c = 'u'
    · subst hu
      exact ((steady_hexUnit hrest).map _).congr (outcome_escape_unit s) (outcome_escape_unit (s ++ w))
    · cases hc : escaped? c with
      | none =>
        have hescape (s : List Char) : outcome escape (c :: s) = .error .grammar := by
          simp [outcome, result, escape, hc, Cause.category]
        exact .of_error (hescape s) (hescape (s ++ w))
      | some d =>
        have hescape (s : List Char) : outcome escape (c :: s) = .ok (.char d, s) := by
          simp [outcome, result, escape, hc]
        exact .of_ok (hescape s) (hescape (s ++ w)) hrest

theorem outcome_lowSurrogate_unit (s : List Char) :
    outcome lowSurrogate ('\\' :: 'u' :: s) = outcome (do
      let n ← hexUnit
      if isLowSurrogate n then return n else fail .loneSurrogate) s := by
  cases hs : hexUnit s with
  | error p =>
    rw [outcome_bind_of_error (outcome_of_error hs)]
    simp only [outcome, result, lowSurrogate, hs]
  | ok t =>
    rw [outcome_bind_of_ok (outcome_of_ok hs)]
    simp only [outcome, result, lowSurrogate, hs]
    cases isLowSurrogate t.value <;> rfl

theorem steady_lowSurrogate (h : Clear w .string s) : Steady w .string lowSurrogate s := by
  cases s with
  | nil => exact .cutOff rfl
  | cons c s =>
    by_cases hc : c = '\\'
    · subst hc
      cases s with
      | nil => exact .cutOff rfl
      | cons d s =>
        by_cases hd : d = 'u'
        · subst hd
          have hrest : Clear w .string s := h
          refine Steady.congr ?_ (outcome_lowSurrogate_unit s) (outcome_lowSurrogate_unit (s ++ w))
          refine (steady_hexUnit hrest).bind fun n r _ hclear => ?_
          split
          next => exact .pure hclear n
          next => exact .fail _
        · have hlow (s : List Char) : outcome lowSurrogate ('\\' :: d :: s) = .error .grammar := by
            simp [outcome, result, lowSurrogate, Cause.category]
          exact .of_error (hlow s) (hlow (s ++ w))
    · have hlow (s : List Char) : outcome lowSurrogate (c :: s) = .error .grammar := by
        simp [outcome, result, lowSurrogate, hc, Cause.category]
      exact .of_error (hlow s) (hlow (s ++ w))

theorem steady_complete (p : Piece) (h : Clear w .string s) : Steady w .string p.complete s := by
  unfold Piece.complete
  split
  next c => exact .pure h c
  next n =>
    split
    next => exact .fail _
    next =>
      split
      next => exact (steady_lowSurrogate h).bind fun m r _ hclear => .pure hclear _
      next => exact .pure h _

/-- A string up to its closing quote, whatever its elements stand for. -/
theorem steady_tail {γ : Type} {tail : Reader (List γ)} (hend : outcome tail [] = .error .cutOff)
    (hquote : ∀ s, outcome tail ('"' :: s) = .ok ([], s))
    (hescape : ∀ s, Clear w .escape s →
      (∀ r, r.length ≤ s.length → Clear w .string r → Steady w .between tail r) →
      Steady w .between tail ('\\' :: s))
    (hplain : ∀ c s, c ≠ '"' → c ≠ '\\' → Clear w .string (c :: s) → Steady w .between tail s →
      Steady w .between tail (c :: s))
    (h : Clear w .string s) : Steady w .between tail s := by
  induction hn : s.length using Nat.strongRecOn generalizing s with
  | ind n ih =>
    cases s with
    | nil => exact .cutOff hend
    | cons c s =>
      rw [List.length_cons] at hn
      by_cases hc : c = '"'
      · subst hc
        exact .of_ok (hquote s) (hquote (s ++ w)) h
      by_cases hc' : c = '\\'
      · subst hc'
        exact hescape s h fun r hr hclear => ih r.length (by omega) hclear rfl
      · have hrest : Clear w .string s := by
          refine h.congr ?_
          rw [Place.behind_cons, Place.next, if_neg hc, if_neg hc']
        exact hplain c s hc hc' h (ih s.length (by omega) hrest rfl)

theorem textTail_plain {c : Char} (hquote : c ≠ '"') (hbackslash : c ≠ '\\') (s : List Char) :
    textTail (c :: s) = (if isControl c then fail .controlCharacter else do
      advance
      let cs ← textTail
      return c :: cs : Reader (List Char)) (c :: s) := by
  rw [textTail]
  · split
    next => rfl
    next =>
      simp only [bind_apply, bind_apply_fun, pure_apply, Reader.bind, Reader.pure, advance, List.tail_cons]
      cases textTail s <;> rfl
  · exact hquote
  · exact hbackslash

theorem textTail_escape (s : List Char) :
    textTail ('\\' :: s) = (do
      advance
      let p ← escape
      let c ← p.complete
      let cs ← textTail
      return c :: cs : Reader (List Char)) ('\\' :: s) := by
  rw [textTail]
  simp only [bind_apply, bind_apply_fun, pure_apply, Reader.bind, Reader.pure, advance, List.tail_cons]
  cases escape s with
  | error p => rfl
  | ok t =>
    obtain ⟨p, r₁, h₁⟩ := t
    simp only
    cases p.complete r₁ with
    | error p => rfl
    | ok t =>
      obtain ⟨c, r₂, h₂⟩ := t
      simp only
      cases textTail r₂ <;> rfl

theorem steady_textTail (h : Clear w .string s) : Steady w .between textTail s := by
  refine steady_tail ?_ ?_ ?_ ?_ h
  · have hend : textTail [] = .error (.before .endInString []) := by rw [textTail]
    exact outcome_of_error hend
  · intro s
    have hquote : textTail ('"' :: s) = .ok ⟨[], s, Nat.le_succ _⟩ := by rw [textTail]
    exact outcome_of_ok hquote
  · intro s hclear ih
    refine Steady.of_eq ?_ (textTail_escape s) (textTail_escape (s ++ w))
    refine .advance_bind (q := .string) hclear fun hclear => ?_
    refine (steady_escape hclear).bind fun p r₁ h₁ hclear₁ => ?_
    refine (steady_complete p hclear₁).bind fun c r₂ h₂ hclear₂ => ?_
    have hle : r₂.length ≤ s.length := Nat.le_trans h₂.length_le h₁.length_le
    exact (ih r₂ hle hclear₂).bind fun cs r₃ _ hclear₃ => .pure hclear₃ (c :: cs)
  · intro c s hquote hbackslash hclear ih
    refine Steady.of_eq ?_ (textTail_plain hquote hbackslash s) (textTail_plain hquote hbackslash (s ++ w))
    split
    next => exact .fail _
    next =>
      refine .advance_bind hclear fun _ => ?_
      exact ih.bind fun cs r _ hclear => .pure hclear (c :: cs)

theorem pieceTail_plain {c : Char} (hquote : c ≠ '"') (hbackslash : c ≠ '\\') (s : List Char) :
    pieceTail (c :: s) = (if isControl c then fail .controlCharacter else do
      advance
      let ps ← pieceTail
      return .char c :: ps : Reader (List Piece)) (c :: s) := by
  rw [pieceTail]
  · split
    next => rfl
    next =>
      simp only [bind_apply, bind_apply_fun, pure_apply, Reader.bind, Reader.pure, advance, List.tail_cons]
      cases pieceTail s <;> rfl
  · exact hquote
  · exact hbackslash

theorem pieceTail_escape (s : List Char) :
    pieceTail ('\\' :: s) = (do
      advance
      let p ← escape
      let ps ← pieceTail
      return p :: ps : Reader (List Piece)) ('\\' :: s) := by
  rw [pieceTail]
  simp only [bind_apply, bind_apply_fun, pure_apply, Reader.bind, Reader.pure, advance, List.tail_cons]
  cases escape s with
  | error p => rfl
  | ok t =>
    obtain ⟨p, r₁, h₁⟩ := t
    simp only
    cases pieceTail r₁ <;> rfl

theorem steady_pieces (h : Clear w .string s) : Steady w .between pieces s := by
  refine steady_tail ?_ ?_ ?_ ?_ h
  · have hend : pieceTail [] = .error (.before .endInString []) := by rw [pieceTail]
    exact outcome_of_error hend
  · intro s
    have hquote : pieceTail ('"' :: s) = .ok ⟨[], s, Nat.le_succ _⟩ := by rw [pieceTail]
    exact outcome_of_ok hquote
  · intro s hclear ih
    refine Steady.of_eq ?_ (pieceTail_escape s) (pieceTail_escape (s ++ w))
    refine .advance_bind (q := .string) hclear fun hclear => ?_
    refine (steady_escape hclear).bind fun p r₁ h₁ hclear₁ => ?_
    exact (ih r₁ h₁.length_le hclear₁).bind fun ps r₂ _ hclear₂ => .pure hclear₂ (p :: ps)
  · intro c s hquote hbackslash hclear ih
    refine Steady.of_eq ?_ (pieceTail_plain hquote hbackslash s) (pieceTail_plain hquote hbackslash (s ++ w))
    split
    next => exact .fail _
    next =>
      refine .advance_bind hclear fun _ => ?_
      exact ih.bind fun ps r _ hclear => .pure hclear (.char c :: ps)

theorem steady_textBody (h : Clear w .string s) : Steady w .between textBody s :=
  (steady_textTail h).map String.ofList

/-! ## Numbers

At the end of the text a part of a number may only be sure of itself if the text behind does not go on
with the number. -/

section
variable {p : Part} {c : Char} {cut : Cause}

theorem steady_minus (hc : c = '-' ∨ isDigit c = true) (h : Clear w .between (c :: s)) :
    Steady w (.number .minus) minus (c :: s) := by
  by_cases hminus : c = '-'
  · subst hminus
    exact .of_ok rfl rfl h
  · have hsigned (s : List Char) : outcome minus (c :: s) = .ok (false, c :: s) := by
      refine yields_iff.1 (yields_minus.2 (.inr ⟨rfl, rfl, ?_⟩))
      simpa using hminus
    refine .of_ok (hsigned s) (hsigned (s ++ w)) (h.congr ?_)
    -- the digit stands for the same part, be it the first character or behind a minus
    have hdigit : isDigit c = true := hc.resolve_left hminus
    have hparts : Part.first? c = Part.minus.next? c := by rw [Part.first?, if_neg hminus, Part.next?]
    have hpart : ∃ p, Part.minus.next? c = some p := by
      by_cases hzero : c = '0'
      · exact ⟨.zero, by rw [Part.next?, if_pos hzero]⟩
      · exact ⟨.whole, by rw [Part.next?, if_neg hzero, if_pos hdigit]⟩
    obtain ⟨p, hp⟩ := hpart
    simp only [Place.behind_cons, Place.next, hparts, hp]

theorem steady_digits (hp : ∀ c, isDigit c = true → p.next? c = some p) (h : Clear w (.number p) s) :
    Steady w (.number p) digits s := by
  obtain ⟨ds, r, hs⟩ : ∃ ds r, Yields digits s ds r := ⟨_, _, yields_iff.2 rfl⟩
  obtain ⟨rfl, hds, hr⟩ := yields_digits.1 hs
  have hrest : Clear w (.number p) r := h.of_digits hp hds
  refine .of_ok (yields_iff.1 hs) (yields_iff.1 (yields_digits.2 ⟨?_, hds, ?_⟩)) hrest
  · rw [List.append_assoc]
  · exact hrest.noDigit_append hr

/-- Where the text ends in a number, a reader that keeps the number reports the end of the text; one that
passes over it reports a bad number, as it does if something else follows. -/
theorem Steady.of_cut {x : Reader α} (hcut : cut.category = .cutOff ∨ cut.category = .grammar)
    (h : Clear w (.number p) []) (hs : outcome x s = .error cut.category)
    (hw : ∀ c r, isNumeric c = false → outcome x (s ++ c :: r) = .error .grammar) : Steady w q x s := by
  rcases hcut with hcut | hcut
  · rw [hcut] at hs
    exact .cutOff hs
  · rw [hcut] at hs
    cases w with
    | nil =>
      refine .of_error hs ?_
      rw [List.append_nil]
      exact hs
    | cons c w => exact .of_error hs (hw c w (h.head rfl))

theorem steady_wholePart (hcut : cut.category = .cutOff ∨ cut.category = .grammar)
    (h : Clear w (.number .minus) s) : Steady w (.number .whole) (wholePart cut) s := by
  cases s with
  | nil =>
    refine .of_cut hcut h rfl fun c r hc => ?_
    have hzero : c ≠ '0' := by
      rintro rfl
      contradiction
    simp only [List.nil_append, outcome, result, wholePart, if_neg hzero, isDigit_of_not_isNumeric hc]
    rfl
  | cons c r =>
    by_cases hzero : c = '0'
    · subst hzero
      have hrest : Clear w (.number .zero) r := h.next rfl
      cases hr : (r.head?.map isDigit).getD false with
      | true =>
        have hlonger : ((r ++ w).head?.map isDigit).getD false = true := by
          cases r with
          | nil => contradiction
          | cons d r => exact hr
        refine .of_error (c := .grammar) ?_ ?_
        · simp only [outcome, result, wholePart, hr, reduceIte]
          rfl
        · simp only [List.cons_append, outcome, result, wholePart, hlonger, reduceIte]
          rfl
      | false =>
        have hnodigit : NoDigit r := by
          intro d hd
          rwa [hd] at hr
        have hwhole {r : List Char} (hr : NoDigit r) : outcome (wholePart cut) ('0' :: r) = .ok (['0'], r) :=
          yields_iff.1 (yields_wholePart_zero.2 ⟨rfl, rfl, hr⟩)
        refine .of_ok (hwhole hnodigit) (hwhole (hrest.noDigit_append hnodigit)) (hrest.part ?_)
        -- behind a zero only the digits are missing
        intro d hd
        simp only [Part.next?, hnodigit d hd, Bool.false_eq_true, reduceIte]
    · cases hc : isDigit c with
      | true =>
        have hwhole (r : List Char) : wholePart cut (c :: r) = digits (c :: r) := by
          simp only [wholePart, if_neg hzero, hc, reduceIte]
        have hclear : Clear w (.number .whole) (c :: r) := by
          refine h.part ?_
          intro d hd
          obtain rfl := Option.some.inj hd
          simp only [Part.next?, if_neg hzero, hc, reduceIte]
        refine (steady_digits ?_ hclear).of_eq (hwhole r) (hwhole (r ++ w))
        intro d hd
        rw [Part.next?, if_pos hd]
      | false =>
        have hwhole (r : List Char) : outcome (wholePart cut) (c :: r) = .error .grammar := by
          simp only [outcome, result, wholePart, if_neg hzero, hc]
          rfl
        exact .of_error (hwhole r) (hwhole (r ++ w))

theorem steady_fractionPart (hcut : cut.category = .cutOff ∨ cut.category = .grammar) (hs : NoDigit s)
    (h : Clear w (.number .whole) s) : Steady w (.number .fraction) (fractionPart cut) s := by
  by_cases hpoint : s.head? = some '.'
  · obtain ⟨r, rfl⟩ : ∃ r, s = '.' :: r := List.head?_eq_some_iff.1 hpoint
    have hrest : Clear w (.number .point) r := h.next rfl
    cases r with
    | nil =>
      refine .of_cut hcut hrest rfl fun c r hc => ?_
      simp only [List.cons_append, List.nil_append, outcome, result, fractionPart, isDigit_of_not_isNumeric hc]
      rfl
    | cons c r =>
      cases hc : isDigit c with
      | true =>
        have hfraction (r : List Char) :
            outcome (fractionPart cut) ('.' :: c :: r) = outcome digits (c :: r) := by
          simp only [outcome, result, fractionPart, hc, reduceIte]
          rfl
        have hclear : Clear w (.number .fraction) (c :: r) := by
          refine hrest.part ?_
          intro d hd
          obtain rfl := Option.some.inj hd
          simp only [Part.next?, hc, reduceIte]
        refine (steady_digits ?_ hclear).congr (hfraction r) (hfraction (r ++ w))
        intro d hd
        rw [Part.next?, if_pos hd]
      | false =>
        have hfraction (r : List Char) : outcome (fractionPart cut) ('.' :: c :: r) = .error .grammar := by
          simp only [outcome, result, fractionPart, hc]
          rfl
        exact .of_error (hfraction r) (hfraction (r ++ w))
  · have hnone {s : List Char} (hs : s.head? ≠ some '.') : outcome (fractionPart cut) s = .ok ([], s) :=
      yields_iff.1 (yields_fractionPart.2 ⟨.absent, fun _ => hs, fun hne => absurd rfl hne⟩)
    refine .of_ok (hnone hpoint) (hnone (h.head?_append_ne (by decide) hpoint)) (h.part ?_)
    intro d hd
    have hne : d ≠ '.' := by
      rintro rfl
      exact hpoint hd
    simp only [Part.next?, hs d hd, if_neg hne, Bool.false_eq_true, reduceIte]

theorem steady_exponentSign (h : Clear w (.number .mark) s) :
    Steady w (.number .sign) exponentSign s := by
  by_cases hplus : s.head? = some '+'
  · obtain ⟨r, rfl⟩ := List.head?_eq_some_iff.1 hplus
    exact .of_ok rfl rfl (h.next rfl)
  by_cases hminus : s.head? = some '-'
  · obtain ⟨r, rfl⟩ := List.head?_eq_some_iff.1 hminus
    exact .of_ok rfl rfl (h.next rfl)
  have hnone {s : List Char} (hplus : s.head? ≠ some '+') (hminus : s.head? ≠ some '-') :
      outcome exponentSign s = .ok (false, s) :=
    yields_iff.1 (yields_exponentSign.2 ⟨[], rfl, .none, fun _ => ⟨hplus, hminus⟩⟩)
  refine .of_ok (hnone hplus hminus) (hnone ?_ ?_) (h.part ?_)
  · exact h.head?_append_ne (by decide) hplus
  · exact h.head?_append_ne (by decide) hminus
  · intro d hd
    have hsign : ¬ (d = '+' ∨ d = '-') := by
      rintro (rfl | rfl)
      · exact hplus hd
      · exact hminus hd
    simp only [Part.next?, if_neg hsign]

theorem steady_exponentDigits (hcut : cut.category = .cutOff ∨ cut.category = .grammar)
    (h : Clear w (.number .sign) s) : Steady w (.number .exponent) (exponentDigits cut) s := by
  cases s with
  | nil =>
    refine .of_cut hcut h rfl fun c r hc => ?_
    simp only [List.nil_append, outcome, result, exponentDigits, isDigit_of_not_isNumeric hc]
    rfl
  | cons c r =>
    cases hc : isDigit c with
    | true =>
      have hdigits (r : List Char) : exponentDigits cut (c :: r) = digits (c :: r) := by
        simp only [exponentDigits, hc, reduceIte]
      have hclear : Clear w (.number .exponent) (c :: r) := h.part fun d _ => rfl
      refine (steady_digits ?_ hclear).of_eq (hdigits r) (hdigits (r ++ w))
      intro d hd
      rw [Part.next?, if_pos hd]
    | false =>
      have hdigits (r : List Char) : outcome (exponentDigits cut) (c :: r) = .error .grammar := by
        simp only [outcome, result, exponentDigits, hc]
        rfl
      exact .of_error (hdigits r) (hdigits (r ++ w))

theorem steady_exponentPart (hcut : cut.category = .cutOff ∨ cut.category = .grammar)
    (h : Clear w (.number .fraction) s) : Steady w .word (exponentPart cut) s := by
  by_cases hmark : s.head? = some 'e' ∨ s.head? = some 'E'
  · obtain ⟨e, r, he, rfl⟩ : ∃ e r, (e = 'e' ∨ e = 'E') ∧ s = e :: r := by
      rcases hmark with hmark | hmark
      · obtain ⟨r, hs⟩ := List.head?_eq_some_iff.1 hmark
        exact ⟨'e', r, .inl rfl, hs⟩
      · obtain ⟨r, hs⟩ := List.head?_eq_some_iff.1 hmark
        exact ⟨'E', r, .inr rfl, hs⟩
    have hmarked : Steady w .word (do
        advance
        let negative ← exponentSign
        let ds ← exponentDigits cut
        return some (negative, ds)) (e :: r) := by
      refine .advance_bind h fun hrest => ?_
      have hrest : Clear w (.number .mark) r := by
        rcases he with rfl | rfl
        · exact hrest
        · exact hrest
      refine (steady_exponentSign hrest).bind fun negative r₁ _ h₁ => ?_
      exact (steady_exponentDigits hcut h₁).bind fun ds r₂ _ h₂ => .pure (h₂.word rfl) _
    refine (Steady.peek h).bind fun o r' hpeek _ => ?_
    obtain ⟨rfl, rfl⟩ := yields_peek.1 hpeek
    rcases he with rfl | rfl
    · exact hmarked
    · exact hmarked
  · obtain ⟨hlower, hupper⟩ := not_or.1 hmark
    have hnone {s : List Char} (hlower : s.head? ≠ some 'e') (hupper : s.head? ≠ some 'E') :
        outcome (exponentPart cut) s = .ok (none, s) :=
      yields_iff.1 (yields_exponentPart.2 ⟨.absent, fun _ => ⟨hlower, hupper⟩, fun hne => absurd rfl hne⟩)
    refine .of_ok (hnone hlower hupper) (hnone ?_ ?_) (h.word rfl)
    · exact h.head?_append_ne (by decide) hlower
    · exact h.head?_append_ne (by decide) hupper

theorem steady_numeral (hcut : cut.category = .cutOff ∨ cut.category = .grammar)
    (hc : c = '-' ∨ isDigit c = true) (h : Clear w .between (c :: s)) :
    Steady w .word (numeral cut) (c :: s) := by
  refine (steady_minus hc h).bind fun negative r₁ _ h₁ => ?_
  refine (steady_wholePart hcut h₁).bind fun whole r₂ hwhole h₂ => ?_
  have hnodigit : NoDigit r₂ := (yields_wholePart.1 hwhole).2.2
  refine (steady_fractionPart hcut hnodigit h₂).bind fun fraction r₃ _ h₃ => ?_
  exact (steady_exponentPart hcut h₃).bind fun exponent r₄ _ h₄ => .pure h₄ _

theorem steady_number (hc : c = '-' ∨ isDigit c = true) (h : Clear w .between (c :: s)) :
    Steady w .word number (c :: s) := by
  refine (steady_numeral (.inl rfl) hc h).bind fun n r _ hclear => ?_
  split
  next => exact .pure hclear n
  next => exact .fail _

end

end ImportAtlas.Json.Reader
