-- SUMMARY: What the lexer makes of each part of written code, whatever follows.
import ImportAtlas.Proofs.Imports.Source

/-! # Reading lexemes

Each part of written code has one lemma: to read it in front of any text is to have its tokens and to go
on with that text. What is read is compared by the lines that come out in the end, since a word is only
ended by what follows it. The place of code tells what is on top of the stack, and the host of a text
tells the mode. -/

namespace ImportAtlas.Imports

/-! ## Tokens -/

def Filler.tokens : Filler → List Token
  | join => [.join]
  | _ => []

def Gap.tokens (gap : Gap) : List Token := gap.flatMap Filler.tokens

/-- The token of a sign in a place. -/
def Place.token (p : Place) (c : Char) : Token :=
  if c = '.' then .dot
  else if c = ',' then .comma
  else if c = '*' then .star
  else if c = ';' ∧ p = .line then .semicolon
  else if c = ':' ∧ p = .line then .colon
  else .other

mutual

def Code.tokens (p : Place) : Code → List Token
  | .nil => []
  | .word w gap rest => .word (String.ofList w) :: gap.tokens ++ rest.tokens p
  | .sign c gap rest => p.token c :: gap.tokens ++ rest.tokens p
  | .bracket _ lead inner gap rest =>
    .other :: lead.tokens ++ inner.tokens .bracket ++ .other :: gap.tokens ++ rest.tokens p
  | .literal _ body gap rest => .other :: body.tokens ++ gap.tokens ++ rest.tokens p

def Text.tokens : Text → List Token
  | .nil => []
  | .char _ rest | .quote _ rest | .escape _ rest | .brace _ rest => rest.tokens
  | .field _ lead code rest => lead.tokens ++ code.tokens .field ++ .other :: rest.tokens
  | .formatted _ lead code format rest =>
    lead.tokens ++ code.tokens .field ++ format.tokens ++ .other :: rest.tokens

end

/-! ## Marks -/

theorem toLower_ofList (w : List Char) :
    (String.ofList w).toLower = String.ofList (w.map Char.toLower) := by
  change (String.ofList w).map Char.toLower = _
  rw [← String.toList_inj, String.toList_map, String.toList_ofList, String.toList_ofList]

theorem contains_map_ofList (xs : List (List Char)) (x : List Char) :
    (xs.map String.ofList).contains (String.ofList x) = xs.contains x := by
  rw [Bool.eq_iff_iff]
  simp [String.ofList_inj]

theorem isWordChar_of_toLower {c : Char} (h : isWordChar c.toLower = true) : isWordChar c = true := by
  unfold Char.toLower at h
  split at h
  next hupper =>
    have hc : c.isUpper = true := decide_eq_true hupper
    have halpha : c.isAlpha = true := Bool.or_eq_true_iff.mpr (.inl hc)
    simp [isWordChar, Char.isAlphanum, halpha]
  next => exact h

/-- A mark consists of letters. -/
theorem all_isWordChar_mark {v : Cover} (hv : v.fits = true) : v.mark.all isWordChar = true := by
  have hmarks : (textMarks ++ templateMarks).all (·.all isWordChar) = true := by decide
  rw [Cover.fits, Bool.or_assoc, Bool.or_eq_true, Cover.template, ← List.contains_append,
    List.contains_iff_mem] at hv
  rcases hv with hempty | hmark
  · rw [List.isEmpty_iff.mp hempty]
    rfl
  · have hlower := List.all_eq_true.mp hmarks _ hmark
    rw [List.all_map, List.all_eq_true] at hlower
    exact List.all_eq_true.mpr fun c hc => isWordChar_of_toLower (hlower c hc)

/-! ## States -/

/-- The stack in a place. -/
def Place.Tops (stack : List Frame) : Place → Prop
  | line => stack = []
  | bracket => ∃ fs, stack = .bracket :: fs
  | field => ∃ d fs, stack = .field d :: fs ∨ stack = .inner d :: fs

/-- How the lexer knows a literal by its cover. -/
def Cover.delimiter (v : Cover) : Delimiter := ⟨v.quote.char, v.long, v.template⟩

theorem Cover.ne_quote (v : Cover) {c : Char} (hsingle : c ≠ '\'') (hdouble : c ≠ '"') :
    c ≠ v.delimiter.quote := by
  rw [delimiter]
  cases v.quote with
  | single => exact hsingle
  | double => exact hdouble

/-- The mode in which a text is read. -/
def Host.mode (d : Delimiter) : Host → Mode
  | cover _ 0 => .text d
  | cover _ seen => .closing d seen
  | format => .format d

/-- What a field opens. -/
def Host.frame (d : Delimiter) : Host → Frame
  | cover _ _ => .field d
  | format => .inner d

/-- A text in a cover is read up to the quotes of that cover. -/
def Host.Ends (d : Delimiter) : Host → Prop
  | cover v _ => d = v.delimiter
  | format => True

namespace Host

theorem Ends.again {h : Host} {d : Delimiter} (hd : h.Ends d) : h.again.Ends d := by
  cases h <;> exact hd

theorem Ends.afterQuote {h : Host} {d : Delimiter} (hd : h.Ends d) : h.afterQuote.Ends d := by
  cases h <;> exact hd

theorem again_again (h : Host) : h.again.again = h.again := by
  cases h <;> rfl

theorem again_afterQuote (h : Host) : h.afterQuote.again = h.again := by
  cases h <;> rfl

theorem again_format : Host.format.again = .format := rfl

theorem mode_format (d : Delimiter) : Host.format.mode d = .format d := rfl

end Host

namespace Lexer

/-- The lines that come out when a text is read to its end. -/
def run (s : Lexer) (cs : List Char) : List Line := (cs.foldl step s).finish

theorem run_cons (s : Lexer) (c : Char) (cs : List Char) : s.run (c :: cs) = (s.step c).run cs := rfl

/-- The machine in a mode, with no word being read. -/
def into (s : Lexer) (m : Mode) : Lexer := { s with mode := m, word := [] }

/-- The machine with more tokens. -/
def emit (s : Lexer) (ts : List Token) : Lexer := { s with tokens := ts.reverse ++ s.tokens }

/-- The machine with something opened. -/
def enter (s : Lexer) (f : Frame) : Lexer := { s with stack := f :: s.stack }

@[simp] theorem emit_nil (s : Lexer) : s.emit [] = s := rfl

@[simp] theorem enter_emit (s : Lexer) (f : Frame) (ts : List Token) :
    (s.enter f).emit ts = (s.emit ts).enter f := rfl

@[simp] theorem emit_emit (s : Lexer) (ts ts' : List Token) :
    (s.emit ts).emit ts' = s.emit (ts ++ ts') := by
  simp [emit]

/-! ## The end of a word -/

theorem endWord_of_nil {s : Lexer} (h : s.word = []) : s.endWord = s := by
  rw [endWord, h]
  rfl

@[simp] theorem word_endWord (s : Lexer) : s.endWord.word = [] := by
  unfold endWord
  split
  next h => exact List.isEmpty_iff.mp h
  next => rfl

@[simp] theorem stack_endWord (s : Lexer) : s.endWord.stack = s.stack := by
  unfold endWord
  split <;> rfl

@[simp] theorem endWord_endWord (s : Lexer) : s.endWord.endWord = s.endWord :=
  endWord_of_nil s.word_endWord

theorem endWord_mode (s : Lexer) (m : Mode) :
    ({ s with mode := m } : Lexer).endWord = { s.endWord with mode := m } := by
  unfold endWord
  split <;> rfl

/-- Whether the word being read marks a literal. -/
def isMark (s : Lexer) : Bool :=
  fieldMarks.contains s.currentWord.toLower || plainMarks.contains s.currentWord.toLower

theorem contains_fieldMarks {s : Lexer} {w : List Char} (h : s.word = w.reverse) :
    fieldMarks.contains s.currentWord.toLower = templateMarks.contains (w.map Char.toLower) := by
  rw [currentWord, h, List.reverse_reverse, toLower_ofList]
  exact contains_map_ofList templateMarks _

theorem contains_plainMarks {s : Lexer} {w : List Char} (h : s.word = w.reverse) :
    plainMarks.contains s.currentWord.toLower = textMarks.contains (w.map Char.toLower) := by
  rw [currentWord, h, List.reverse_reverse, toLower_ofList]
  exact contains_map_ofList textMarks _

theorem isMark_eq {s : Lexer} {w : List Char} (h : s.word = w.reverse) :
    s.isMark = (textMarks ++ templateMarks).contains (w.map Char.toLower) := by
  rw [isMark, contains_fieldMarks h, contains_plainMarks h, List.contains_append, Bool.or_comm]

theorem isMark_of_nil {s : Lexer} (h : s.word = []) : s.isMark = false :=
  isMark_eq (w := []) h

theorem beginLiteral_of_not_isMark {s : Lexer} (h : s.isMark = false) (quote : Char) :
    s.beginLiteral quote = { s.endWord.push .other with mode := .oneQuote { quote } } := by
  obtain ⟨hfields, hplain⟩ := Bool.or_eq_false_iff.mp h
  simp only [beginLiteral, hfields, hplain, Bool.or_self, Bool.false_eq_true, if_false]

/-- What is no letter ends the word before anything else, unless the word marks a literal. -/
theorem code_endWord {s : Lexer} (hs : s.mode = .code) {c : Char} (hc : isWordChar c = false)
    (hquote : c = '"' ∨ c = '\'' → s.isMark = false) : s.endWord.code c = s.code c := by
  have hmode : ({ s with mode := .code } : Lexer) = s := by rw [← hs]
  have hend : s.endWord.endWord = s.endWord := s.endWord_endWord
  have hliteral (h : c = '"' ∨ c = '\'') : s.endWord.beginLiteral c = s.beginLiteral c := by
    rw [beginLiteral_of_not_isMark (hquote h), beginLiteral_of_not_isMark (isMark_of_nil s.word_endWord),
      hend]
  unfold code
  rw [← endWord_mode, hmode]
  simp only [hc, Bool.false_eq_true, if_false]
  refine ite_congr rfl (fun _ => by simp [newline, endLine]) fun _ => ?_
  refine ite_congr rfl (fun _ => hend) fun _ => ?_
  refine ite_congr rfl (fun _ => by rw [hend]) fun _ => ?_
  refine ite_congr rfl (fun _ => by rw [hend]) fun _ => ?_
  refine ite_congr rfl hliteral fun _ => ?_
  refine ite_congr rfl (fun _ => by rw [hend]) fun _ => ?_
  refine ite_congr rfl (fun _ => by rw [close, close, hend]) fun _ => ?_
  refine ite_congr rfl (fun _ => by rw [colon, colon, hend]) fun _ => ?_
  rw [stack_endWord, hend]

/-! ## Words, gaps and signs -/

theorem run_letters (s : Lexer) (w acc r : List Char) (hw : w.all isWordChar = true) :
    ({ s with mode := .code, word := acc } : Lexer).run (w ++ r) =
      ({ s with mode := .code, word := w.reverse ++ acc } : Lexer).run r := by
  induction w generalizing acc with
  | nil => rfl
  | cons c w ih =>
    obtain ⟨hc, hw⟩ := Bool.and_eq_true_iff.mp hw
    have hstep : ({ s with mode := .code, word := acc } : Lexer).step c =
        { s with mode := .code, word := c :: acc } := by
      simp only [step, code, hc, if_true]
    rw [List.cons_append, run_cons, hstep, ih _ hw, List.reverse_cons, List.append_assoc]
    rfl

theorem run_endWord {s : Lexer} {r : List Char} (hs : s.mode = .code)
    (hr : ∀ c ∈ r.head?, isWordChar c = false ∧ (c = '"' ∨ c = '\'' → s.isMark = false)) :
    s.endWord.run r = s.run r := by
  cases r with
  | nil => simp [run, finish, endLine]
  | cons c r =>
    obtain ⟨hc, hquote⟩ := hr c rfl
    have hmode : s.endWord.mode = .code := by
      unfold endWord
      split <;> exact hs
    have hstep : s.endWord.step c = s.step c := by
      simp only [step, hs, hmode]
      exact code_endWord hs hc hquote
    rw [run_cons, run_cons, hstep]

theorem run_word (s : Lexer) {w r : List Char} (hw : w.isEmpty = false)
    (hletters : w.all isWordChar = true) (hr : wordEnds w r = true) :
    (s.into .code).run (w ++ r) = ((s.emit [.word (String.ofList w)]).into .code).run r := by
  have hend : ({ s with mode := .code, word := w.reverse } : Lexer).endWord =
      (s.emit [.word (String.ofList w)]).into .code := by
    rw [endWord, if_neg (by simpa using hw), currentWord, List.reverse_reverse]
    rfl
  rw [into, run_letters s w [] r hletters, List.append_nil, ← hend]
  refine (run_endWord rfl fun c hc => ?_).symm
  simp only [wordEnds, Option.mem_def.mp hc, Bool.and_eq_true, Bool.or_eq_true, Bool.not_eq_true',
    bne_iff_ne] at hr
  refine ⟨hr.1, fun hquote => ?_⟩
  rw [isMark_eq (w := w) rfl]
  rcases hr.2 with hne | hmark
  · exact absurd hquote (by simp [hne])
  · exact hmark

theorem newline_into {s : Lexer} {p : Place} (hp : p.Tops s.stack) (hline : p ≠ .line) (m : Mode) :
    (s.into m).newline = s.into .code := by
  have hstack : (s.into m).stack.isEmpty = false := by
    cases p with
    | line => contradiction
    | bracket =>
      obtain ⟨fs, hfs⟩ := hp
      simp [into, hfs]
    | field =>
      obtain ⟨d, fs, hfs | hfs⟩ := hp <;> simp [into, hfs]
  rw [newline, hstack]
  rfl

/-- A comment goes on up to the end of its line. -/
theorem run_remark (s : Lexer) {remark : List Char} (h : remark.contains '\n' = false) (r : List Char) :
    (s.into .comment).run (remark ++ r) = (s.into .comment).run r := by
  induction remark with
  | nil => rfl
  | cons c remark ih =>
    rw [List.contains_cons, Bool.or_eq_false_iff] at h
    have hc : c ≠ '\n' := fun hc => by simp [hc] at h
    have hstep : (s.into .comment).step c = s.into .comment := if_neg hc
    rw [List.cons_append, run_cons, hstep, ih h.2]

theorem run_filler {s : Lexer} {p : Place} (hp : p.Tops s.stack) {f : Filler} (hf : f.fits p = true)
    (r : List Char) : (s.into .code).run (f.text ++ r) = ((s.emit f.tokens).into .code).run r := by
  cases f with
  | blank b => cases b <;> rfl
  | join => rfl
  | lineEnd =>
    have hline : p ≠ .line := bne_iff_ne.mp hf
    exact congrArg (run · r) (newline_into hp hline .code)
  | comment remark =>
    obtain ⟨hline, hremark⟩ := Bool.and_eq_true_iff.mp hf
    have hend : (s.into .comment).step '\n' = s.into .code :=
      newline_into hp (bne_iff_ne.mp hline) .comment
    have htext : (Filler.comment remark).text ++ r = '#' :: (remark ++ '\n' :: r) := by
      simp [Filler.text]
    have hbegin : (s.into .code).step '#' = s.into .comment := rfl
    rw [htext, run_cons, hbegin, run_remark s (by simpa using hremark), run_cons, hend]
    rfl

theorem run_gap {s : Lexer} {p : Place} (hp : p.Tops s.stack) {gap : Gap} (hgap : gap.fits p = true)
    (r : List Char) : (s.into .code).run (gap.text ++ r) = ((s.emit gap.tokens).into .code).run r := by
  induction gap generalizing s with
  | nil => rfl
  | cons f gap ih =>
    obtain ⟨hf, hgap⟩ := Bool.and_eq_true_iff.mp hgap
    have htext : Gap.text (f :: gap) ++ r = f.text ++ (Gap.text gap ++ r) := by simp [Gap.text]
    rw [htext, run_filler hp hf, ih (s := s.emit f.tokens) hp hgap, emit_emit]
    rfl

theorem run_sign {s : Lexer} {p : Place} (hp : p.Tops s.stack) {c : Char} (hc : p.allows c = true)
    (r : List Char) : (s.into .code).run (c :: r) = ((s.emit [p.token c]).into .code).run r := by
  simp only [Place.allows, Bool.and_eq_true, Bool.or_eq_true, bne_iff_ne, beq_iff_eq,
    List.contains_iff_mem] at hc
  obtain ⟨⟨hsign, hfield⟩, hline⟩ := hc
  have hstep : (s.into .code).step c = (s.emit [p.token c]).into .code := by
    by_cases hcolon : c = ':'
    · subst hcolon
      cases p with
      | line =>
        have hstack : s.stack = [] := hp
        simp [step, code, into, colon, endWord, push, emit, Place.token, isWordChar, isSpace, hstack]
      | bracket =>
        obtain ⟨fs, hstack⟩ := hp
        simp [step, code, into, colon, endWord, push, emit, Place.token, isWordChar, isSpace, hstack]
      | field => simp at hfield
    by_cases hsemicolon : c = ';'
    · subst hsemicolon
      obtain rfl : p = .line := by simpa using hline
      have hstack : s.stack = [] := hp
      simp [step, code, into, endWord, push, emit, Place.token, isWordChar, isSpace, hstack]
    · simp only [signs, List.mem_cons, List.not_mem_nil, or_false, hcolon, hsemicolon] at hsign
      rcases hsign with rfl | rfl | rfl | rfl | rfl | rfl | rfl | rfl | rfl | rfl | rfl | rfl | rfl |
        rfl | rfl | rfl <;> rfl
  rw [run_cons, hstep]

/-! ## Brackets, fields and quotes -/

theorem run_left (s : Lexer) (b : Bracket) (r : List Char) :
    (s.into .code).run (b.left :: r) = (((s.emit [.other]).enter .bracket).into .code).run r := by
  cases b <;> rfl

theorem run_right (s : Lexer) (b : Bracket) (r : List Char) :
    ((s.enter .bracket).into .code).run (b.right :: r) = ((s.emit [.other]).into .code).run r := by
  cases b <;> rfl

/-- The mark and the first quote of a literal. -/
theorem run_begin (s : Lexer) {v : Cover} (hv : v.fits = true) (r : List Char) :
    (s.into .code).run (v.mark ++ v.quote.char :: r) =
      ((s.emit [.other]).into (.oneQuote ⟨v.quote.char, false, v.template⟩)).run r := by
  have hquote : ({ s with mode := .code, word := v.mark.reverse } : Lexer).step v.quote.char =
      ({ s with mode := .code, word := v.mark.reverse } : Lexer).beginLiteral v.quote.char := by
    cases v.quote <;> rfl
  have hbegin : ({ s with mode := .code, word := v.mark.reverse } : Lexer).beginLiteral v.quote.char =
      (s.emit [.other]).into (.oneQuote ⟨v.quote.char, false, v.template⟩) := by
    have hfields := contains_fieldMarks (s := { s with mode := .code, word := v.mark.reverse })
      (w := v.mark) rfl
    have hplain := contains_plainMarks (s := { s with mode := .code, word := v.mark.reverse })
      (w := v.mark) rfl
    have htemplate : templateMarks.contains (v.mark.map Char.toLower) = v.template := rfl
    simp only [beginLiteral, hfields, hplain, htemplate]
    split
    next => rfl
    next hmark =>
      have hempty : v.mark = [] := by
        rw [Bool.not_eq_true, Bool.or_eq_false_iff] at hmark
        rw [Cover.fits, hmark.1, hmark.2, Bool.or_false, Bool.or_false] at hv
        exact List.isEmpty_iff.mp hv
      rw [endWord_of_nil (by simp [hempty]), hempty]
      rfl
  rw [into, run_letters s v.mark [] _ (all_isWordChar_mark hv), List.append_nil, run_cons, hquote,
    hbegin]

/-- The mark and the quotes in front of a long literal. -/
theorem run_begin_long (s : Lexer) {v : Cover} (hv : v.fits = true) (hlong : v.long = true)
    (r : List Char) : (s.into .code).run (v.mark ++ (v.quotes ++ r)) =
      ((s.emit [.other]).into (.text v.delimiter)).run r := by
  have hquotes : v.quotes = [v.quote.char, v.quote.char, v.quote.char] := by
    rw [Cover.quotes, hlong]
    rfl
  have hdelimiter : v.delimiter = ⟨v.quote.char, true, v.template⟩ := by rw [Cover.delimiter, hlong]
  rw [hquotes, hdelimiter, List.cons_append, run_begin s hv]
  simp [run_cons, step, into]

/-- The quotes behind a long literal. -/
theorem run_end_long (s : Lexer) {v : Cover} (hlong : v.long = true) (r : List Char) :
    (s.into (.text v.delimiter)).run (v.quotes ++ r) = (s.into .code).run r := by
  have hquotes : v.quotes = [v.quote.char, v.quote.char, v.quote.char] := by
    rw [Cover.quotes, hlong]
    rfl
  have hdelimiter : v.delimiter = ⟨v.quote.char, true, v.template⟩ := by rw [Cover.delimiter, hlong]
  rw [hquotes, hdelimiter]
  simp [run_cons, step, text, into]

/-- Two quotes are an empty literal if no third one follows. -/
theorem run_twoQuotes (s : Lexer) {d : Delimiter} {r : List Char} (hr : r.head? ≠ some d.quote) :
    (s.into (.twoQuotes d)).run r = (s.into .code).run r := by
  cases r with
  | nil => rfl
  | cons c r =>
    have hc : c ≠ d.quote := by simpa using hr
    have hstep : (s.into (.twoQuotes d)).step c = (s.into .code).step c := if_neg hc
    rw [run_cons, run_cons, hstep]

/-- One quote begins a text if it is no other quote that follows. -/
theorem run_oneQuote (s : Lexer) {d : Delimiter} {r : List Char} (hr : r.head? ≠ some d.quote) :
    (s.into (.oneQuote d)).run r = (s.into (.text d)).run r := by
  cases r with
  | nil => rfl
  | cons c r =>
    have hc : c ≠ d.quote := by simpa using hr
    have hstep : (s.into (.oneQuote d)).step c = (s.into (.oneQuote d)).text d c := if_neg hc
    rw [run_cons, run_cons, hstep]
    rfl

/-- A brace begins a field if it is no other brace that follows. -/
theorem run_brace (s : Lexer) (d : Delimiter) {r : List Char} (hr : r.head? ≠ some '{') :
    (s.into (.brace d)).run r = ((s.enter (.field d)).into .code).run r := by
  cases r with
  | nil => rfl
  | cons c r =>
    have hc : c ≠ '{' := by simpa using hr
    have hstep : (s.into (.brace d)).step c = ((s.enter (.field d)).into .code).step c := if_neg hc
    rw [run_cons, run_cons, hstep]

/-- A character that is no quote is read in the same way whether quotes are in front of it. -/
theorem step_cover (s : Lexer) {v : Cover} {seen : Nat} {c : Char} (hc : c ≠ v.delimiter.quote) :
    (s.into ((Host.cover v seen).mode v.delimiter)).step c =
      (s.into (.text v.delimiter)).text v.delimiter c := by
  cases seen with
  | zero => rfl
  | succ seen => exact if_neg hc

theorem run_char {s : Lexer} {h : Host} {d : Delimiter} (hd : h.Ends d) {c : Char}
    (hc : h.allowsChar c = true) (r : List Char) :
    (s.into (h.mode d)).run (c :: r) = (s.into (h.again.mode d)).run r := by
  cases h with
  | cover v seen =>
    obtain rfl : d = v.delimiter := hd
    simp only [Host.allowsChar, Bool.and_eq_true, Bool.or_eq_true, bne_iff_ne, Bool.not_eq_true'] at hc
    obtain ⟨⟨⟨hne, hslash⟩, hbrace⟩, hline⟩ := hc
    have hquote : c ≠ v.delimiter.quote := hne
    have htext : (s.into (.text v.delimiter)).text v.delimiter c = s.into (.text v.delimiter) := by
      have hbrace' : ¬ (c = '{' ∧ v.delimiter.fields = true) := by
        rintro ⟨hc, hfields⟩
        rcases hbrace with hplain | hne
        · exact Bool.false_ne_true (hplain.symm.trans hfields)
        · exact hne hc
      have hline' : ¬ (c = '
' ∧ (!v.delimiter.triple) = true) := by
        rintro ⟨hc, htriple⟩
        rcases hline with hlong | hne
        · simp [Cover.delimiter, hlong] at htriple
        · exact hne hc
      rw [text, if_neg hquote, if_neg hslash, if_neg hbrace', if_neg hline']
      rfl
    rw [run_cons, step_cover s hquote, htext]
    rfl
  | format =>
    obtain ⟨hleft, hright⟩ := Bool.and_eq_true_iff.mp hc
    have hstep : (s.into (.format d)).step c = s.into (.format d) := by
      change (s.into (.format d)).format d c = _
      rw [format, if_neg (bne_iff_ne.mp hleft), if_neg (bne_iff_ne.mp hright)]
    exact congrArg (run · r) hstep

theorem run_quote {s : Lexer} {h : Host} {d : Delimiter} (hd : h.Ends d) {q : Quote}
    (hq : h.allowsQuote q = true) (r : List Char) :
    (s.into (h.mode d)).run (q.char :: r) = (s.into (h.afterQuote.mode d)).run r := by
  cases h with
  | cover v seen =>
    obtain rfl : d = v.delimiter := hd
    simp only [Host.allowsQuote, Bool.and_eq_true, beq_iff_eq, decide_eq_true_eq] at hq
    obtain ⟨⟨hlong, rfl⟩, hseen⟩ := hq
    have hdelimiter : v.delimiter = ⟨v.quote.char, true, v.template⟩ := by rw [Cover.delimiter, hlong]
    have hstep : (s.into ((Host.cover v seen).mode v.delimiter)).step v.quote.char =
        s.into ((Host.cover v (seen + 1)).mode v.delimiter) := by
      rw [hdelimiter]
      obtain rfl | rfl : seen = 0 ∨ seen = 1 := by omega
      · simp [Host.mode, step, text, into]
      · simp [Host.mode, step, into]
    rw [run_cons, hstep]
    rfl
  | format => simp [Host.allowsQuote] at hq

theorem step_slash (s : Lexer) (v : Cover) (seen : Nat) :
    (s.into ((Host.cover v seen).mode v.delimiter)).step '\\' = s.into (.escape v.delimiter) := by
  have hquote : '\\' ≠ v.delimiter.quote := by cases hq : v.quote <;> simp [Cover.delimiter, hq, Quote.char]
  rw [step_cover s hquote, text, if_neg hquote]
  rfl

theorem run_escape {s : Lexer} {h : Host} {d : Delimiter} (hd : h.Ends d) {c : Char}
    (hc : h.allowsEscape c = true) (r : List Char) :
    (s.into (h.mode d)).run ('\\' :: c :: r) = (s.into (h.again.mode d)).run r := by
  cases h with
  | cover v seen =>
    obtain rfl : d = v.delimiter := hd
    simp only [Host.allowsEscape, Bool.or_eq_true, Bool.not_eq_true', bne_iff_ne] at hc
    have hstep : (s.into (.escape v.delimiter)).step c = s.into (.text v.delimiter) := by
      refine if_neg ?_
      rintro ⟨hbrace, hfields⟩
      rcases hc with hplain | hne
      · exact Bool.false_ne_true (hplain.symm.trans hfields)
      · exact hne hbrace
    rw [run_cons, step_slash, run_cons, hstep]
    rfl
  | format => simp [Host.allowsEscape] at hc

/-- A brace in a literal with fields, behind a backslash or not. -/
theorem run_slashText {s : Lexer} {v : Cover} {seen : Nat} (hv : v.template = true) (slash : Bool)
    (r : List Char) :
    (s.into ((Host.cover v seen).mode v.delimiter)).run (slashText slash ++ '{' :: r) =
      (s.into (.brace v.delimiter)).run r := by
  have hfields : v.delimiter.fields = true := hv
  have hquote : '{' ≠ v.delimiter.quote := v.ne_quote (by decide) (by decide)
  cases slash with
  | true =>
    have hstep : (s.into (.escape v.delimiter)).step '{' = s.into (.brace v.delimiter) :=
      if_pos ⟨rfl, hfields⟩
    change (s.into ((Host.cover v seen).mode v.delimiter)).run ('\\' :: '{' :: r) = _
    rw [run_cons, step_slash, run_cons, hstep]
  | false =>
    have hstep : (s.into (.text v.delimiter)).text v.delimiter '{' = s.into (.brace v.delimiter) := by
      rw [text, if_neg hquote, if_neg (by decide), if_pos ⟨rfl, hfields⟩]
      rfl
    change (s.into ((Host.cover v seen).mode v.delimiter)).run ('{' :: r) = _
    rw [run_cons, step_cover s hquote, hstep]

/-- A brace that is written twice. -/
theorem run_doubled {s : Lexer} {h : Host} {d : Delimiter} (hd : h.Ends d) {slash : Bool}
    (hbrace : h.allowsBrace = true) (r : List Char) :
    (s.into (h.mode d)).run (slashText slash ++ '{' :: '{' :: r) = (s.into (h.again.mode d)).run r := by
  cases h with
  | cover v seen =>
    obtain rfl : d = v.delimiter := hd
    rw [run_slashText hbrace]
    rfl
  | format => simp [Host.allowsBrace] at hbrace

/-- The brace in front of a field. -/
theorem run_fieldLeft {s : Lexer} {h : Host} {d : Delimiter} (hd : h.Ends d) {slash : Bool}
    (hfield : h.allowsField slash = true) {r : List Char} (hr : r.head? ≠ some '{') :
    (s.into (h.mode d)).run (slashText slash ++ '{' :: r) =
      ((s.enter (h.frame d)).into .code).run r := by
  cases h with
  | cover v seen =>
    obtain rfl : d = v.delimiter := hd
    rw [run_slashText hfield, run_brace s _ hr]
    rfl
  | format =>
    obtain rfl : slash = false := by simpa [Host.allowsField] using hfield
    rfl

/-- The brace behind a field. -/
theorem run_fieldRight (s : Lexer) (h : Host) (d : Delimiter) (r : List Char) :
    ((s.enter (h.frame d)).into .code).run ('}' :: r) =
      ((s.emit [.other]).into (h.again.mode d)).run r := by
  cases h <;> rfl

/-- The brace behind the format of a field. -/
theorem run_formatRight (s : Lexer) (h : Host) (d : Delimiter) (r : List Char) :
    ((s.enter (h.frame d)).into (.format d)).run ('}' :: r) =
      ((s.emit [.other]).into (h.again.mode d)).run r := by
  cases h <;> rfl

/-- The colon in front of the format of a field. -/
theorem run_formatLeft (s : Lexer) (h : Host) (d : Delimiter) (r : List Char) :
    ((s.enter (h.frame d)).into .code).run (':' :: r) =
      ((s.enter (h.frame d)).into (.format d)).run r := by
  cases h <;> rfl

end Lexer

end ImportAtlas.Imports
