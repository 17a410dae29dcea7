-- SUMMARY: Scanning a written module gives back what it imports.
import ImportAtlas.Proofs.Imports.Harvest
import ImportAtlas.Proofs.Imports.Reading

/-! # Scanning written modules

A line of a module is read up to its end as one logical line, or as none if it has no code. So the lines
of a module are those of its block, in order. A line is nested just if its block is not the outermost one
or if it begins with the head of a clause, and its statements have their addresses. -/

namespace ImportAtlas.Imports

/-! ## Lines -/

/-- Some text in front of which a line ends: none, or the end of the line. -/
def Stops (r : List Char) : Prop := r = [] ∨ ∃ r', r = '\n' :: r'

theorem Stops.ends {r : List Char} (hr : Stops r) : Ends r := by
  rcases hr with rfl | ⟨r, rfl⟩
  · simp [Ends]
  · exact ends_cons (by decide) r

namespace Lexer

/-- The machine at the start of a line, with some lines behind it. -/
def fresh (lines : List Line) : Lexer := { lines }

theorem run_fresh_nil (lines : List Line) : (fresh lines).run [] = lines.reverse := rfl

/-- The end of a line with code, or with a comment behind its code. -/
theorem run_stop {s : Lexer} (hstack : s.stack = []) (htokens : s.tokens ≠ []) {m : Mode}
    (hm : m = .code ∨ m = .comment) {r : List Char} (hr : Stops r) :
    (s.into m).run r = (fresh (⟨s.indented, s.tokens.reverse⟩ :: s.lines)).run r.tail := by
  have hend : (s.into m).endLine = fresh (⟨s.indented, s.tokens.reverse⟩ :: s.lines) := by
    have hsome : s.tokens.isEmpty = false := by simpa using htokens
    simp [endLine, endWord, into, fresh, hsome, hstack]
  rcases hr with rfl | ⟨r, rfl⟩
  · change (s.into m).endLine.lines.reverse = _
    rw [hend]
    rfl
  · have hstep : (s.into m).step '\n' = (s.into m).endLine := by
      have hnewline : (s.into m).newline = (s.into m).endLine := by
        have hempty : (s.into m).stack.isEmpty = true := by simp [into, hstack]
        rw [newline, if_pos hempty]
      rcases hm with rfl | rfl <;> exact hnewline
    rw [run_cons, hstep, hend]
    rfl

theorem run_remarkText {s : Lexer} (hstack : s.stack = []) (htokens : s.tokens ≠ [])
    {remark : Option (List Char)} (hremark : remarkFits remark = true) {r : List Char} (hr : Stops r) :
    (s.into .code).run (remarkText remark ++ r) =
      (fresh (⟨s.indented, s.tokens.reverse⟩ :: s.lines)).run r.tail := by
  cases remark with
  | none => exact run_stop hstack htokens (.inl rfl) hr
  | some remark =>
    have hline : remark.contains '\n' = false := by simpa [remarkFits] using hremark
    have hbegin : (s.into .code).step '#' = s.into .comment := rfl
    change (s.into .code).run ('#' :: (remark ++ r)) = _
    rw [run_cons, hbegin, run_remark s hline]
    exact run_stop hstack htokens (.inr rfl) hr

/-- A line without code leaves no trace. -/
theorem run_blankLine (lines : List Line) (l : BlankLine) (hl : remarkFits l.remark = true)
    {r : List Char} (hr : Stops r) : (fresh lines).run (l.text ++ r) = (fresh lines).run r.tail := by
  have hblanks (bs : List Blank) (indented : Bool) (r : List Char) :
      ∃ b, ({ fresh lines with indented := indented } : Lexer).run (bs.map Blank.char ++ r) =
        ({ fresh lines with indented := b } : Lexer).run r := by
    induction bs generalizing indented with
    | nil => exact ⟨indented, rfl⟩
    | cons b bs ih => cases b <;> exact ih _
  obtain ⟨b, hb⟩ := hblanks l.blanks false (remarkText l.remark ++ r)
  rw [BlankLine.text, List.append_assoc]
  refine hb.trans ?_
  cases hremark : l.remark with
  | none => rcases hr with rfl | ⟨r, rfl⟩ <;> rfl
  | some remark =>
    have hline : remark.contains '\n' = false := by simpa [remarkFits, hremark] using hl
    have hcomment := run_remark { fresh lines with indented := b } hline r
    refine Eq.trans hcomment ?_
    rcases hr with rfl | ⟨r, rfl⟩ <;> rfl

/-- The machine in front of the code of a line. -/
def ahead (s : Lexer) (indented kept : Bool) : Lexer :=
  ({ s with indented := indented } : Lexer).into (.lineStart kept)

/-- A margin settles whether the line is indented: a column other than the first one is reached, or was
in front of a backslash. -/
theorem run_margin (s : Lexer) {margin : Gap} (hmargin : margin.fits .line = true)
    (column settled : Nat) (r : List Char) :
    ∃ kept, (s.ahead (column != 0 || settled != 0) (settled != 0)).run (margin.text ++ r) =
      (s.ahead (columnFrom column settled margin != 0) kept).run r := by
  induction margin generalizing column settled with
  | nil =>
    refine ⟨settled != 0, ?_⟩
    have hindented : (column != 0 || settled != 0) = (columnFrom column settled [] != 0) := by
      rw [columnFrom]
      split
      next hsettled => simp [hsettled]
      next hsettled => simp [hsettled]
    rw [hindented]
    rfl
  | cons f margin ih =>
    obtain ⟨hf, hmargin⟩ := Bool.and_eq_true_iff.mp hmargin
    cases f with
    | blank b =>
      cases b with
      | space => exact ih hmargin (column + 1) settled
      | tab =>
        have htab : ((column / 8 + 1) * 8 != 0 || settled != 0) = true := by simp
        have hnext := ih hmargin ((column / 8 + 1) * 8) settled
        rw [htab] at hnext
        exact hnext
      | feed => exact ih hmargin 0 settled
    | join =>
      -- the column in front of the first backslash is the one that is kept
      have hkept : ((if settled = 0 then column else settled) != 0) = (column != 0 || settled != 0) := by
        by_cases hsettled : settled = 0 <;> simp [hsettled]
      have hnext := ih hmargin column (if settled = 0 then column else settled)
      rw [hkept, ← Bool.or_assoc, Bool.or_self] at hnext
      exact hnext
    | lineEnd => simp [Filler.fits] at hf
    | comment remark => simp [Filler.fits] at hf

/-- The first character of code ends the margin. -/
theorem run_ahead (s : Lexer) (indented kept : Bool) {c : Char} (hline : c ≠ '\n')
    (hspace : isSpace c = false) (hslash : c ≠ '\\') (r : List Char) :
    (s.ahead indented kept).run (c :: r) =
      (({ s with indented := indented } : Lexer).into .code).run (c :: r) := by
  have hfeed : c ≠ '\x0c' := by
    rintro rfl
    simp [isSpace] at hspace
  have hstep : (s.ahead indented kept).step c = (({ s with indented := indented } : Lexer).into .code).step c := by
    change (s.ahead indented kept).start kept c = _
    rw [start, if_neg hline, if_neg hfeed, hspace, if_neg hslash]
    rfl
  rw [run_cons, run_cons, hstep]

end Lexer

/-- Code begins with what ends a margin. -/
theorem Code.exists_text_eq {c : Code} (hnil : c.isNil = false) {p : Place} (hfits : c.fits p = true) :
    ∃ x xs, c.text = x :: xs ∧ x ≠ '\n' ∧ isSpace x = false ∧ x ≠ '\\' := by
  have hletter {x : Char} (hx : isWordChar x = true) : x ≠ '\n' ∧ isSpace x = false ∧ x ≠ '\\' := by
    refine ⟨?_, ?_, ?_⟩
    · rintro rfl
      simp [isWordChar] at hx
    · refine Bool.eq_false_iff.mpr fun hspace => ?_
      simp only [isSpace, Bool.or_eq_true, beq_iff_eq] at hspace
      rcases hspace with (rfl | rfl) | rfl <;> simp [isWordChar] at hx
    · rintro rfl
      simp [isWordChar] at hx
  cases c with
  | nil => simp [isNil] at hnil
  | word w gap rest =>
    simp only [fits, Bool.and_eq_true, Bool.not_eq_true'] at hfits
    obtain ⟨⟨⟨⟨hw, hletters⟩, -⟩, -⟩, -⟩ := hfits
    cases w with
    | nil => simp at hw
    | cons x w => exact ⟨x, _, rfl, hletter (Bool.and_eq_true_iff.mp hletters).1⟩
  | sign x gap rest =>
    simp only [fits, Place.allows, Bool.and_eq_true, List.contains_iff_mem] at hfits
    obtain ⟨⟨⟨⟨hsign, -⟩, -⟩, -⟩, -⟩ := hfits
    have hsigns : signs.all (fun x => x != '\n' && !isSpace x && x != '\\') = true := by decide
    have hx := List.all_eq_true.mp hsigns x hsign
    simp only [Bool.and_eq_true, bne_iff_ne, Bool.not_eq_true'] at hx
    exact ⟨x, _, rfl, hx.1.1, hx.1.2, hx.2⟩
  | bracket b lead inner gap rest => exact ⟨b.left, _, rfl, by cases b <;> decide⟩
  | literal v body gap rest =>
    simp only [fits, Bool.and_eq_true] at hfits
    obtain ⟨⟨⟨⟨hv, -⟩, -⟩, -⟩, -⟩ := hfits
    have hletters := all_isWordChar_mark hv
    obtain ⟨mark, quote, long⟩ := v
    cases mark with
    | nil => cases long <;> cases quote <;> exact ⟨_, _, rfl, by decide⟩
    | cons x mark => exact ⟨x, _, rfl, hletter (Bool.and_eq_true_iff.mp hletters).1⟩

theorem Code.tokens_ne_nil {c : Code} (hnil : c.isNil = false) (p : Place) : c.tokens p ≠ [] := by
  cases c with
  | nil => simp [isNil] at hnil
  | _ => simp [tokens]

/-! ## Blocks -/

/-- Some text is a line that is read as some logical lines. -/
def Reads (x : List Char × List Line) : Prop :=
  ∀ (lines : List Line) (r : List Char), Stops r →
    (Lexer.fresh lines).run (x.1 ++ r) = (Lexer.fresh (x.2.reverse ++ lines)).run r.tail

/-- Lines are read one after the other. -/
theorem run_intercalate {xs : List (List Char × List Line)} (h : ∀ x ∈ xs, Reads x) (lines : List Line) :
    (Lexer.fresh lines).run (['\n'].intercalate (xs.map (·.1))) =
      lines.reverse ++ xs.flatMap (·.2) := by
  induction xs generalizing lines with
  | nil => simp [Lexer.run_fresh_nil]
  | cons x xs ih =>
    have hx : Reads x := h x List.mem_cons_self
    have hxs := ih fun y hy => h y (List.mem_cons_of_mem x hy)
    cases xs with
    | nil =>
      have hread := hx lines [] (.inl rfl)
      rw [List.append_nil] at hread
      simpa [Lexer.run_fresh_nil] using hread
    | cons y ys =>
      have hread := hx lines ('\n' :: ['\n'].intercalate ((y :: ys).map (·.1))) (.inr ⟨_, rfl⟩)
      have htext : ['\n'].intercalate ((x :: y :: ys).map (·.1)) =
          x.1 ++ '\n' :: ['\n'].intercalate ((y :: ys).map (·.1)) := by
        simp [List.intercalate]
      rw [htext, hread, List.tail_cons, hxs]
      simp

namespace Setting

variable {f : Setting} {c : Code}

/-- The logical line that is read. -/
def line (f : Setting) (c : Code) : Line := ⟨f.column != 0, c.tokens .line⟩

/-- The lines, each with the logical lines that it is read as. -/
def readings (f : Setting) (c : Code) : List (List Char × List Line) :=
  f.above.map (fun l => (l.text, [])) ++
    [(f.margin.text ++ c.text ++ remarkText f.remark, [f.line c])]

theorem reads_line (hf : f.fits c = true) (hc : c.isNil = false) :
    Reads (f.margin.text ++ c.text ++ remarkText f.remark, [f.line c]) := by
  simp only [fits, Bool.and_eq_true] at hf
  obtain ⟨⟨⟨-, hmargin⟩, hremark⟩, hcode⟩ := hf
  intro lines r hr
  obtain ⟨x, xs, htext, hline, hspace, hslash⟩ := Code.exists_text_eq hc hcode
  have hends : Ends (remarkText f.remark ++ r) := by
    cases f.remark with
    | none => exact hr.ends
    | some remark => exact ends_cons (by decide) _
  obtain ⟨kept, hkept⟩ :=
    Lexer.run_margin (Lexer.fresh lines) hmargin 0 0 (c.text ++ (remarkText f.remark ++ r))
  simp only [List.append_assoc]
  refine Eq.trans hkept ?_
  rw [htext, List.cons_append, Lexer.run_ahead _ _ _ hline hspace hslash, ← List.cons_append, ← htext]
  let s : Lexer := { Lexer.fresh lines with indented := f.column != 0 }
  have htokens : (s.emit (c.tokens .line)).tokens ≠ [] := by
    simp [Lexer.emit, Code.tokens_ne_nil hc .line]
  calc
    (s.into .code).run (c.text ++ (remarkText f.remark ++ r))
    _ = ((s.emit (c.tokens .line)).into .code).run (remarkText f.remark ++ r) :=
      Lexer.run_code c (p := .line) (s := s) rfl hcode hends
    _ = (Lexer.fresh (⟨_, (s.emit (c.tokens .line)).tokens.reverse⟩ :: lines)).run r.tail :=
      Lexer.run_remarkText rfl htokens hremark hr
    _ = (Lexer.fresh ([f.line c].reverse ++ lines)).run r.tail := by
      simp [s, Lexer.emit, Lexer.fresh, line]

theorem reads_readings (hf : f.fits c = true) (hc : c.isNil = false) : ∀ x ∈ f.readings c, Reads x := by
  intro x hx
  rcases List.mem_append.mp hx with h | h
  · obtain ⟨l, hl, rfl⟩ := List.mem_map.mp h
    simp only [fits, Bool.and_eq_true] at hf
    have hremark := List.all_eq_true.mp hf.1.1.1 l hl
    intro lines r hr
    exact Lexer.run_blankLine lines l hremark hr
  · obtain rfl := List.mem_singleton.mp h
    exact reads_line hf hc

end Setting

theorem Statement.isNil_code {s : Statement} (hs : s.valid = true) (k : Code) :
    (s.code k).isNil = false := by
  cases s with
  | names gap l => rfl
  | members gap base behind target => rfl
  | other c =>
    simp only [valid, Bool.and_eq_true, Bool.not_eq_true'] at hs
    cases c with
    | nil => simp [Code.isNil] at hs
    | _ => rfl

theorem Suite.isNil_code {s : Suite} (hs : s.valid = true) : s.code.isNil = false := by
  cases s with
  | last s => exact Statement.isNil_code hs _
  | closed s gap => exact Statement.isNil_code hs _
  | more s gap rest => exact Statement.isNil_code (Bool.and_eq_true_iff.mp hs).1 _

namespace Block

/-- The lines of a block, each with the logical lines that it is read as. -/
def readings : Block → List (List Char × List Line)
  | nil => []
  | line f s rest => f.readings s.code ++ rest.readings
  | clause f h s rest => f.readings (h.code s.code) ++ rest.readings
  | nest f h body rest => f.readings (h.code .nil) ++ body.readings ++ rest.readings

theorem map_readings (b : Block) : b.readings.map (·.1) = b.lines := by
  have hsetting (f : Setting) (c : Code) : (f.readings c).map (·.1) = f.lines c := by
    simp [Setting.readings, Setting.lines]
  induction b with
  | nil => rfl
  | line f s rest ih => simp [readings, lines, hsetting, ih]
  | clause f h s rest ih => simp [readings, lines, hsetting, ih]
  | nest f h body rest ihbody ih => simp [readings, lines, hsetting, ihbody, ih]

theorem reads_readings (b : Block) {column : Nat} (hb : b.valid column = true) :
    ∀ x ∈ b.readings, Reads x := by
  induction b generalizing column with
  | nil => simp [readings]
  | line f s rest ih =>
    simp only [valid, Bool.and_eq_true] at hb
    obtain ⟨⟨⟨-, hf⟩, hs⟩, hrest⟩ := hb
    intro x hx
    rcases List.mem_append.mp hx with h | h
    · exact Setting.reads_readings hf (Suite.isNil_code hs) x h
    · exact ih hrest x h
  | clause f h s rest ih =>
    simp only [valid, Bool.and_eq_true] at hb
    obtain ⟨⟨⟨⟨-, hf⟩, -⟩, -⟩, hrest⟩ := hb
    intro x hx
    rcases List.mem_append.mp hx with h | h
    · exact Setting.reads_readings hf rfl x h
    · exact ih hrest x h
  | nest f h body rest ihbody ih =>
    simp only [valid, Bool.and_eq_true, Option.any_eq_true] at hb
    obtain ⟨⟨⟨⟨-, hf⟩, -⟩, inner, -, -, hbody⟩, hrest⟩ := hb
    intro x hx
    simp only [readings, List.mem_append] at hx
    rcases hx with (h | h) | h
    · exact Setting.reads_readings hf rfl x h
    · exact ihbody hbody x h
    · exact ih hrest x h

theorem imports_setting (f : Setting) (c : Code) : ((f.readings c).flatMap (·.2)).flatMap Line.imports =
    (harvest (c.tokens .line)).map (⟨·, f.column != 0 || beginsClause (c.tokens .line)⟩) := by
  have habove : (f.above.map fun l => (l.text, ([] : List Line))).flatMap (·.2) = [] := by simp
  rw [Setting.readings, List.flatMap_append, habove]
  simp [Line.imports_eq, Line.isNested_eq, Setting.line]

/-- The logical lines of a block import what the block imports. -/
theorem imports_readings (b : Block) {column : Nat} (hb : b.valid column = true) :
    (b.readings.flatMap (·.2)).flatMap Line.imports = b.imports (column != 0) := by
  have hnil : Joins [] := by simp [Joins]
  induction b generalizing column with
  | nil => rfl
  | line f s rest ih =>
    simp only [valid, Bool.and_eq_true, beq_iff_eq] at hb
    obtain ⟨⟨⟨rfl, -⟩, hs⟩, hrest⟩ := hb
    have hsuite : harvest (s.code.tokens .line) = s.addresses := s.harvest_tokens hs hnil
    rw [readings, List.flatMap_append, List.flatMap_append, imports_setting, hsuite,
      s.beginsClause_code hs, Bool.or_false, ih hrest]
    rfl
  | clause f h s rest ih =>
    simp only [valid, Bool.and_eq_true, beq_iff_eq] at hb
    obtain ⟨⟨⟨⟨rfl, -⟩, hh⟩, hs⟩, hrest⟩ := hb
    rw [readings, List.flatMap_append, List.flatMap_append, imports_setting, Head.harvest_code hh,
      s.harvest_tokens hs h.behind.joins_tokens, Head.beginsClause_code hh, Bool.or_true, ih hrest]
    rfl
  | nest f h body rest ihbody ih =>
    simp only [valid, Bool.and_eq_true, beq_iff_eq, Option.any_eq_true, decide_eq_true_eq] at hb
    obtain ⟨⟨⟨⟨rfl, -⟩, hh⟩, inner, -, hinner, hbody⟩, hrest⟩ := hb
    have hhead : harvest ((h.code .nil).tokens .line) = [] := by
      rw [Head.harvest_code hh, Code.tokens, List.append_nil, harvest_joins h.behind.joins_tokens]
    have hnested : (inner != 0) = true := bne_iff_ne.mpr (Nat.ne_zero_of_lt hinner)
    simp only [readings, List.flatMap_append]
    rw [imports_setting, hhead, ihbody hbody, hnested, ih hrest]
    rfl

end Block

/-! ## Modules -/

theorem unifyLineEnds_of_respells {t s : List Char} (h : Respells t s) : unifyLineEnds t = s := by
  induction h with
  | nil => rfl
  | @char c t s hline hcarriage h ih =>
    have hcons : unifyLineEnds (c :: t) = c :: unifyLineEnds t := by
      rw [unifyLineEnds]
      · rintro rest rfl
        exact absurd rfl hcarriage
      · rintro rfl
        exact absurd rfl hcarriage
    rw [hcons, ih]
  | @feed t s h ih =>
    have hcons : unifyLineEnds ('\n' :: t) = '\n' :: unifyLineEnds t := by
      rw [unifyLineEnds] <;> simp
    rw [hcons, ih]
  | carriageFeed h ih => rw [unifyLineEnds, ih]
  | @carriage t s hfeed h ih =>
    have hcons : unifyLineEnds ('\r' :: t) = '\n' :: unifyLineEnds t := by
      rw [unifyLineEnds]
      rintro rest rfl
      exact hfeed rfl
    rw [hcons, ih]

theorem respells_self {s : List Char} (h : s.all (· != '\r') = true) : Respells s s := by
  induction s with
  | nil => exact .nil
  | cons c s ih =>
    obtain ⟨hc, hs⟩ := Bool.and_eq_true_iff.mp h
    by_cases hline : c = '\n'
    · rw [hline]
      exact .feed (ih hs)
    · exact .char hline (bne_iff_ne.mp hc) (ih hs)

namespace Module

variable {m : Module}

theorem unifyLineEnds_source {t : List Char} (ht : m.Source t) :
    unifyLineEnds (dropByteOrderMark t) = m.text := by
  cases ht with
  | plain h hmark =>
    have hdrop : dropByteOrderMark t = t := by
      unfold dropByteOrderMark
      split
      next cs => exact absurd rfl hmark
      next => rfl
    rw [hdrop, unifyLineEnds_of_respells h]
  | marked h => exact unifyLineEnds_of_respells h

theorem reads_below (hm : m.valid = true) :
    ∀ x ∈ m.below.map (fun l => (l.text, ([] : List Line))), Reads x := by
  obtain ⟨-, hbelow⟩ := Bool.and_eq_true_iff.mp hm
  intro x hx
  obtain ⟨l, hl, rfl⟩ := List.mem_map.mp hx
  intro lines r hr
  exact Lexer.run_blankLine lines l (List.all_eq_true.mp hbelow l hl) hr

theorem logicalLines_source (hm : m.valid = true) {t : List Char} (ht : m.Source t) :
    logicalLines t = m.block.readings.flatMap (·.2) := by
  obtain ⟨hblock, -⟩ := Bool.and_eq_true_iff.mp hm
  let xs := m.block.readings ++ m.below.map fun l => (l.text, ([] : List Line))
  have hxs : ∀ x ∈ xs, Reads x := by
    intro x hx
    exact (List.mem_append.mp hx).elim (m.block.reads_readings hblock x) (reads_below hm x)
  have htext : m.text = ['\n'].intercalate (xs.map (·.1)) := by
    simp [xs, text, Block.map_readings, Function.comp_def]
  have hlines : xs.flatMap (·.2) = m.block.readings.flatMap (·.2) := by simp [xs]
  change (Lexer.fresh []).run (unifyLineEnds (dropByteOrderMark t)) = _
  rw [unifyLineEnds_source ht, htext, run_intercalate hxs, hlines]
  rfl

/-- Scanning a source of a module finds what the module imports, in order: one entry for each name of
each import that is not relative, without alias and blanks, conditional just if it is nested. -/
theorem scan_source (m : Module) (source : String) (hm : m.valid = true) (hsource : m.Source source.toList) :
    scan source = m.imports := by
  obtain ⟨hblock, -⟩ := Bool.and_eq_true_iff.mp hm
  rw [scan, logicalLines_source hm hsource, m.block.imports_readings hblock]
  rfl

/-- A module with much of what a module can have: a long literal and comments that hold marks and
reserved words, blanks and joins around names, brackets over several lines, an alias, a wildcard, a
relative import, a literal with fields, and statements behind the colon of a clause and in blocks. -/
def sample : Module :=
  let space : Gap := [.blank .space]
  let a : Name := { letters := ['a'] }
  let os : Name := { letters := ['o', 's'] }
  let alone (n : Name) : Listing := ⟨⟨⟨n, []⟩, [], none⟩, []⟩
  let long : Code := .literal ⟨[], .double, true⟩
    (.char '#' (.quote .double (.char ';' (.char '\n' (.escape '"' (.char ';' .nil)))))) [] .nil
  let template : Code := .literal ⟨['F'], .single, false⟩
    (.formatted false [] (.word ['y'] [] .nil) (.field false [] (.word ['w'] [] .nil) .nil) .nil) [] .nil
  let path : Entry := ⟨⟨os, [⟨[.space], [.space], a⟩]⟩, space, some ⟨space, os, []⟩⟩
  let first : Statement := .names space ⟨path, [⟨[.join], (alone os).first⟩]⟩
  let second : Statement := .members space (.absolute ⟨os, []⟩ space) []
    (.group [.lineEnd, .comment ['"']] (alone a) (some [.lineEnd]) [])
  let wildcard : Statement := .members space (.absolute ⟨a, []⟩ space) [] (.all [])
  let sibling : Statement := .members [] (.relative [] [] none) space (.names (alone a))
  let header : Head := ⟨['d', 'e', 'f'], space,
    .word ['f'] [] (.bracket .round [] (.word ['x'] [] (.sign ':' [] template)) [] .nil), []⟩
  let body : Block :=
    .line ⟨[⟨[], none⟩], [.blank .space, .blank .feed, .blank .tab], none⟩ (.last sibling)
      (.nest ⟨[], [.blank .tab], none⟩ header
        (.line ⟨[], [.blank .tab, .blank .space], none⟩ (.last (.names space (alone os))) .nil) .nil)
  { block :=
      .line ⟨[], [], some ['\'']⟩ (.last (.other long))
        (.line ⟨[⟨[.tab], some ['i', 'f']⟩], [], none⟩ (.more first space (.closed second []))
          (.clause ⟨[], [], none⟩ ⟨['i', 'f'], space, .word ['x'] [] .nil, space⟩ (.last wildcard)
            (.nest ⟨[], [], some []⟩ ⟨['i', 'f'], space, .word ['x'] [] .nil, []⟩ body
              (.line ⟨[], [], none⟩ (.last (.names space (alone a))) .nil))))
    below := [⟨[.space], some []⟩] }

theorem scan_source_sample :
    let source := "\"\"\"#\";\n\\\";\"\"\"#'\n\t#if\nimport os . a as os,\\\nos; from os import(\n#\"\na,\n);\n" ++
      "if x: from a import*\nif x:#\n\n \x0c\tfrom.import a\n\tdef f(x:F'\x7by:\x7bw\x7d\x7d'):\n\t import os\n" ++
      "import a\n #"
    sample.valid = true ∧ sample.Source source.toList ∧
      scan source = [⟨"os.a", false⟩, ⟨"os", false⟩, ⟨"os.a", false⟩, ⟨"a.*", true⟩, ⟨"os", true⟩,
        ⟨"a", false⟩] := by
  intro source
  have hvalid : sample.valid = true := by decide
  have htext : source.toList = sample.text := by decide +kernel
  have hsource : sample.Source source.toList := by
    rw [htext]
    exact .plain (respells_self (by decide)) (by decide)
  exact ⟨hvalid, hsource, scan_source sample source hvalid hsource⟩

end Module

-- a join inside of a dotted name is no blank, and stays in the address
example : scan "import a.\\\nb" = [⟨"a.\\b", false⟩] := by decide

end ImportAtlas.Imports
