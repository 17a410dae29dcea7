-- SUMMARY: The lexer reads written code as the tokens of its lexemes.
import ImportAtlas.Proofs.Imports.Lexemes

/-! # Reading written code

The parts of a literal are put together first. Then code and the texts of literals, which hold each
other, are read by one induction over both. -/

namespace ImportAtlas.Imports

/-! ## Literals -/

/-- Some text in front of which code ends. -/
def Ends (r : List Char) : Prop := ∀ c ∈ r.head?, isWordChar c = false ∧ c ≠ '"' ∧ c ≠ '\''

theorem wordEnds_append {w next r : List Char} (h : wordEnds w next = true) (hr : Ends r) :
    wordEnds w (next ++ r) = true := by
  cases next with
  | cons c next => exact h
  | nil =>
    cases r with
    | nil => rfl
    | cons c r =>
      obtain ⟨hc, hdouble, hsingle⟩ := hr c rfl
      simp [wordEnds, hc, hdouble, hsingle]

theorem Cover.ends_append {v : Cover} {bare : Bool} {next r : List Char} (h : v.ends bare next = true)
    (hr : Ends r) : v.ends bare (next ++ r) = true := by
  cases next with
  | cons c next => exact h
  | nil =>
    cases r with
    | nil => exact h
    | cons c r =>
      obtain ⟨-, hdouble, hsingle⟩ := hr c rfl
      have hc : c ≠ v.quote.char := v.ne_quote hsingle hdouble
      simp [ends, hc]

/-- Brackets, braces and colons end code. -/
theorem ends_cons {c : Char} (hc : (isWordChar c || c == '"' || c == '\'') = false) (r : List Char) :
    Ends (c :: r) := by
  rintro x ⟨⟩
  simpa [and_assoc] using hc

theorem head?_append_cons_ne {xs r : List Char} {c x : Char} (hxs : xs.head? ≠ some c) (hx : x ≠ c) :
    (xs ++ x :: r).head? ≠ some c := by
  cases xs with
  | nil => simpa using hx
  | cons y xs => exact hxs

theorem Text.text_ne_nil {body : Text} (h : body.isNil = false) : body.text ≠ [] := by
  cases body with
  | nil => simp [isNil] at h
  | _ => simp [text]

theorem fieldBegins_append {lead : Gap} {code : Code} (h : fieldBegins lead code = true) {c : Char}
    (hc : c ≠ '{') {r : List Char} : (lead.text ++ (code.text ++ c :: r)).head? ≠ some '{' := by
  rw [← List.append_assoc]
  exact head?_append_cons_ne (bne_iff_ne.mp h) hc

/-- The text of a short literal does not begin with a quote. -/
theorem Text.head?_text_ne {v : Cover} {seen : Nat} (hshort : v.long = false) {body : Text}
    (hbody : body.fits (.cover v seen) = true) : body.text.head? ≠ some v.delimiter.quote := by
  have hslash : '\\' ≠ v.delimiter.quote := v.ne_quote (by decide) (by decide)
  have hbrace : '{' ≠ v.delimiter.quote := v.ne_quote (by decide) (by decide)
  cases body with
  | nil => simp [text]
  | char c rest =>
    simp only [fits, Host.allowsChar, Bool.and_eq_true, bne_iff_ne] at hbody
    have hc : c ≠ v.delimiter.quote := hbody.1.1.1.1
    simpa [text] using hc
  | quote q rest => simp [fits, Host.allowsQuote, hshort] at hbody
  | escape c rest => simpa [text] using hslash
  | brace slash rest => cases slash <;> simpa [text, slashText]
  | field slash lead code rest => cases slash <;> simpa [text, slashText]
  | formatted slash lead code format rest => cases slash <;> simpa [text, slashText]

namespace Lexer

theorem run_short {s : Lexer} {v : Cover} (hv : v.fits = true) (hshort : v.long = false) {body : Text}
    (hbody : body.fits (.cover v 0) = true)
    (hread : ∀ (s : Lexer) (r : List Char), (s.into (.text v.delimiter)).run (body.text ++ r) =
      ((s.emit body.tokens).into (.text v.delimiter)).run r)
    {r : List Char} (hr : v.ends body.isNil r = true) :
    (s.into .code).run (v.mark ++ (v.quotes ++ (body.text ++ (v.quotes ++ r)))) =
      ((s.emit (.other :: body.tokens)).into .code).run r := by
  have hquotes : v.quotes = [v.quote.char] := by
    rw [Cover.quotes, hshort]
    rfl
  have hdelimiter : v.delimiter = ⟨v.quote.char, false, v.template⟩ := by rw [Cover.delimiter, hshort]
  rw [hquotes, List.singleton_append, run_begin s hv, ← hdelimiter]
  cases hnil : body.isNil with
  | true =>
    obtain rfl : body = .nil := by
      cases body with
      | nil => rfl
      | _ => simp [Text.isNil] at hnil
    have hne : r.head? ≠ some v.quote.char := by simpa [Cover.ends, hshort, hnil] using hr
    have hstep : ((s.emit [.other]).into (.oneQuote v.delimiter)).step v.quote.char =
        (s.emit [.other]).into (.twoQuotes v.delimiter) := if_pos rfl
    rw [Text.text, List.nil_append, List.singleton_append, run_cons, hstep, run_twoQuotes _ hne]
    rfl
  | false =>
    have hhead : (body.text ++ ([v.quote.char] ++ r)).head? ≠ some v.delimiter.quote := by
      obtain ⟨c, cs, htext⟩ := List.exists_cons_of_ne_nil (Text.text_ne_nil hnil)
      have hhead := Text.head?_text_ne hshort hbody
      rw [htext] at hhead ⊢
      exact hhead
    have hstep (t : Lexer) : (t.into (.text v.delimiter)).step v.quote.char = t.into .code := by
      rw [hdelimiter]
      simp [step, text, into]
    rw [run_oneQuote _ hhead, hread, List.singleton_append, run_cons, hstep, emit_emit]
    rfl

theorem run_literal {s : Lexer} {v : Cover} (hv : v.fits = true) {body : Text}
    (hbody : body.fits (.cover v 0) = true)
    (hread : ∀ (s : Lexer) (r : List Char), (s.into (.text v.delimiter)).run (body.text ++ r) =
      ((s.emit body.tokens).into (.text v.delimiter)).run r)
    {r : List Char} (hr : v.ends body.isNil r = true) :
    (s.into .code).run (v.mark ++ (v.quotes ++ (body.text ++ (v.quotes ++ r)))) =
      ((s.emit (.other :: body.tokens)).into .code).run r := by
  cases hlong : v.long with
  | true =>
    rw [run_begin_long s hv hlong, hread, run_end_long _ hlong, emit_emit]
    rfl
  | false => exact run_short hv hlong hbody hread hr

/-! ## Code and texts -/

theorem tops_frame (s : Lexer) (h : Host) (d : Delimiter) :
    Place.Tops (s.enter (h.frame d)).stack .field := by
  cases h with
  | cover v seen => exact ⟨d, s.stack, .inl rfl⟩
  | format => exact ⟨d, s.stack, .inr rfl⟩

mutual

/-- Code is read as its tokens. -/
theorem run_code (code : Code) {p : Place} {s : Lexer} (hp : p.Tops s.stack)
    (hfits : code.fits p = true) {r : List Char} (hr : Ends r) :
    (s.into .code).run (code.text ++ r) = ((s.emit (code.tokens p)).into .code).run r := by
  cases code with
  | nil => rfl
  | word w gap rest =>
    simp only [Code.fits, Bool.and_eq_true, Bool.not_eq_true'] at hfits
    obtain ⟨⟨⟨⟨hw, hletters⟩, hends⟩, hgap⟩, hrest⟩ := hfits
    have hend : wordEnds w (gap.text ++ (rest.text ++ r)) = true := by
      rw [← List.append_assoc]
      exact wordEnds_append hends hr
    simp only [Code.text, List.append_assoc]
    rw [run_word s hw hletters hend, run_gap (s := s.emit _) hp hgap,
      run_code rest (s := (s.emit _).emit _) hp hrest hr, emit_emit, emit_emit]
    rfl
  | sign c gap rest =>
    simp only [Code.fits, Bool.and_eq_true] at hfits
    obtain ⟨⟨hc, hgap⟩, hrest⟩ := hfits
    simp only [Code.text, List.append_assoc, List.cons_append]
    rw [run_sign hp hc, run_gap (s := s.emit _) hp hgap,
      run_code rest (s := (s.emit _).emit _) hp hrest hr, emit_emit, emit_emit]
    rfl
  | bracket b lead inner gap rest =>
    simp only [Code.fits, Bool.and_eq_true] at hfits
    obtain ⟨⟨⟨hlead, hinner⟩, hgap⟩, hrest⟩ := hfits
    have hright (r : List Char) : Ends (b.right :: r) := ends_cons (by cases b <;> decide) r
    simp only [Code.text, List.append_assoc, List.cons_append]
    rw [run_left, run_gap (p := .bracket) ⟨_, rfl⟩ hlead, enter_emit,
      run_code inner (p := .bracket) ⟨_, rfl⟩ hinner (hright _), enter_emit, run_right,
      emit_emit, emit_emit, emit_emit, run_gap (s := s.emit _) hp hgap, run_code rest (s := (s.emit _).emit _) hp hrest hr]
    simp only [emit_emit, Code.tokens, List.append_assoc, List.cons_append, List.nil_append]
  | literal v body gap rest =>
    simp only [Code.fits, Bool.and_eq_true] at hfits
    obtain ⟨⟨⟨⟨hv, hbody⟩, hends⟩, hgap⟩, hrest⟩ := hfits
    have hread (s : Lexer) (r : List Char) : (s.into (.text v.delimiter)).run (body.text ++ r) =
        ((s.emit body.tokens).into (.text v.delimiter)).run r :=
      run_text body (h := .cover v 0) (d := v.delimiter) rfl hbody r
    have hend : v.ends body.isNil (gap.text ++ (rest.text ++ r)) = true := by
      rw [← List.append_assoc]
      exact Cover.ends_append hends hr
    simp only [Code.text, List.append_assoc]
    rw [run_literal hv hbody hread hend, run_gap (s := s.emit _) hp hgap,
      run_code rest (s := (s.emit _).emit _) hp hrest hr]
    simp only [emit_emit, Code.tokens, List.append_assoc, List.cons_append]

/-- So is the text of a literal or of a format, which has tokens only in its fields. -/
theorem run_text (t : Text) {h : Host} {d : Delimiter} {s : Lexer} (hd : h.Ends d)
    (hfits : t.fits h = true) (r : List Char) :
    (s.into (h.mode d)).run (t.text ++ r) = ((s.emit t.tokens).into (h.again.mode d)).run r := by
  cases t with
  | nil =>
    have hagain : h.again = h := by
      cases h with
      | cover v seen =>
        obtain rfl : seen = 0 := by simpa [Text.fits, Host.allowsEnd] using hfits
        rfl
      | format => rfl
    rw [hagain]
    rfl
  | char c rest =>
    obtain ⟨hc, hrest⟩ := Bool.and_eq_true_iff.mp hfits
    rw [Text.text, List.cons_append, run_char hd hc, run_text rest (hd.again) hrest, Host.again_again]
    rfl
  | quote q rest =>
    obtain ⟨hq, hrest⟩ := Bool.and_eq_true_iff.mp hfits
    rw [Text.text, List.cons_append, run_quote hd hq, run_text rest hd.afterQuote hrest,
      Host.again_afterQuote]
    rfl
  | escape c rest =>
    obtain ⟨hc, hrest⟩ := Bool.and_eq_true_iff.mp hfits
    rw [Text.text, List.cons_append, List.cons_append, run_escape hd hc, run_text rest hd.again hrest,
      Host.again_again]
    rfl
  | brace slash rest =>
    obtain ⟨hbrace, hrest⟩ := Bool.and_eq_true_iff.mp hfits
    simp only [Text.text, List.append_assoc, List.cons_append]
    rw [run_doubled hd hbrace, run_text rest hd.again hrest, Host.again_again]
    rfl
  | field slash lead code rest =>
    simp only [Text.fits, Bool.and_eq_true] at hfits
    obtain ⟨⟨⟨⟨hfield, hbegins⟩, hlead⟩, hcode⟩, hrest⟩ := hfits
    have hright (r : List Char) : Ends ('}' :: r) := ends_cons (by decide) r
    simp only [Text.text, List.append_assoc, List.cons_append]
    rw [run_fieldLeft hd hfield (fieldBegins_append hbegins (by decide)),
      run_gap (p := .field) (tops_frame s h d) hlead, enter_emit,
      run_code code (p := .field) (tops_frame _ h d) hcode (hright _), enter_emit, run_fieldRight,
      run_text rest hd.again hrest, Host.again_again]
    simp only [emit_emit, Text.tokens, List.append_assoc, List.cons_append, List.nil_append]
  | formatted slash lead code format rest =>
    simp only [Text.fits, Bool.and_eq_true] at hfits
    obtain ⟨⟨⟨⟨⟨hfield, hbegins⟩, hlead⟩, hcode⟩, hformat⟩, hrest⟩ := hfits
    have hcolon (r : List Char) : Ends (':' :: r) := ends_cons (by decide) r
    simp only [Text.text, List.append_assoc, List.cons_append]
    rw [run_fieldLeft hd hfield (fieldBegins_append hbegins (by decide)),
      run_gap (p := .field) (tops_frame s h d) hlead, enter_emit,
      run_code code (p := .field) (tops_frame _ h d) hcode (hcolon _), enter_emit, run_formatLeft,
      ← Host.mode_format d, run_text format (h := .format) trivial hformat, enter_emit, Host.again_format,
      Host.mode_format, run_formatRight, run_text rest hd.again hrest, Host.again_again]
    simp only [emit_emit, Text.tokens, List.append_assoc, List.cons_append, List.nil_append]

end

end Lexer

end ImportAtlas.Imports
