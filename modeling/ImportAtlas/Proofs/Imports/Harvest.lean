-- SUMMARY: The tokens of a line yield the addresses that its statements import.
import ImportAtlas.Proofs.Imports.Entries

/-! # The addresses of statements

Cutting the tokens of a line at semicolons and colons gives back its statements. An import is one piece,
which begins with its word behind joins; of any other statement all pieces begin with something else. -/

namespace ImportAtlas.Imports

/-! ## Pieces -/

/-- What a piece begins with, behind joins. -/
def leading (ts : List Token) : Option Token := (ts.dropWhile (· == .join)).head?

/-- A piece that begins so is no import. -/
def Silent (t : Option Token) : Prop := t ≠ some (.word "import") ∧ t ≠ some (.word "from")

theorem addresses_of_silent {ts : List Token} (h : Silent (leading ts)) : Imports.addresses ts = [] := by
  obtain ⟨himport, hfrom⟩ := h
  unfold Imports.addresses
  split
  next us hus => exact absurd (by rw [leading, hus]; rfl) himport
  next us hus => exact absurd (by rw [leading, hus]; rfl) hfrom
  next => rfl

theorem Joins.leading_append {js : List Token} (h : Joins js) (ts : List Token) :
    leading (js ++ ts) = leading ts := by
  rw [leading, h.dropWhile_append]
  rfl

theorem addresses_import {js : List Token} (hjs : Joins js) (ts : List Token) :
    Imports.addresses (js ++ .word "import" :: ts) = importedNames ts := by
  unfold Imports.addresses
  rw [hjs.dropWhile_append]
  simp

theorem Base.import_not_mem {b : Base} : Token.word "import" ∉ b.tokens := by
  have hname (d : Dotted) : Token.word "import" ∉ d.tokens :=
    Dotted.word_not_mem_tokens (by decide)
  have hgap (gap : Gap) : Token.word "import" ∉ gap.tokens := by
    intro h
    cases gap.joins_tokens _ h
  cases b with
  | absolute m behind => simp [tokens, hname, hgap]
  | relative dot dots m => cases m <;> simp [tokens, hname, hgap]

/-- Where the word `import` parts the tokens behind `from`. -/
theorem span_import {front : List Token} (h : Token.word "import" ∉ front) (us : List Token) :
    (front ++ .word "import" :: us).takeWhile (· != .word "import") = front ∧
      ((front ++ .word "import" :: us).dropWhile (· != .word "import")).drop 1 = us := by
  have hfront : ∀ t ∈ front, (t != .word "import") = true :=
    fun t ht => bne_iff_ne.mpr fun heq => h (heq ▸ ht)
  constructor
  · rw [List.takeWhile_append_of_pos hfront, List.takeWhile_cons_of_neg (by simp), List.append_nil]
  · rw [List.dropWhile_append_of_pos hfront, List.dropWhile_cons_of_neg (by simp)]
    rfl

theorem addresses_absolute {js front us : List Token} (hjs : Joins js)
    (hfront : Token.word "import" ∉ front) (m : Dotted) (hm : trimJoins front = m.tokens) :
    Imports.addresses (js ++ .word "from" :: (front ++ .word "import" :: us)) =
      (importedNames us).map fun n => m.text ++ "." ++ n := by
  obtain ⟨htake, hdrop⟩ := span_import hfront us
  have hnil : Joins [] := by simp [Joins]
  have hname : dottedName m.tokens = m.text := by
    have hname := m.dottedName_tokens hnil hnil
    rwa [List.append_nil] at hname
  unfold Imports.addresses
  rw [hjs.dropWhile_append, List.dropWhile_cons_of_neg (by simp)]
  simp only [htake, hdrop, hm, hname]
  rfl

theorem addresses_relative {js front us : List Token} (hjs : Joins js)
    (hfront : Token.word "import" ∉ front) (hdot : (trimJoins front).head? = some .dot) :
    Imports.addresses (js ++ .word "from" :: (front ++ .word "import" :: us)) = [] := by
  obtain ⟨htake, -⟩ := span_import hfront us
  obtain ⟨ts, hts⟩ : ∃ ts, trimJoins front = .dot :: ts := List.head?_eq_some_iff.mp hdot
  unfold Imports.addresses
  rw [hjs.dropWhile_append, List.dropWhile_cons_of_neg (by simp)]
  simp only [htake, hts]

theorem head?_trimJoins {js : List Token} (hjs : Joins js) {t : Token} (ht : t ≠ .join)
    (ts : List Token) : (trimJoins (js ++ t :: ts)).head? = some t := by
  have hfront : (t :: ts).dropWhile (· == .join) = t :: ts := by simp [ht]
  have hback : (ts.reverse ++ [t]).dropWhile (· == .join) = ts.reverse.dropWhile (· == .join) ++ [t] := by
    rw [List.dropWhile_append]
    split
    next hempty => simp [List.isEmpty_iff.mp hempty, ht]
    next => rfl
  rw [trimJoins, hjs.dropWhile_append, hfront, List.reverse_cons, hback, List.reverse_append]
  rfl

/-! ## Code without imports -/

theorem Joins.whole {js : List Token} (hjs : Joins js) : Whole js := by
  intro t ht
  rw [hjs t ht]
  rfl

@[simp] theorem Gap.whole_tokens (gap : Gap) : Whole gap.tokens := gap.joins_tokens.whole

/-- A sign is no word and no join. -/
theorem Place.token_cases (p : Place) (c : Char) :
    p.token c ∈ [.dot, .comma, .star, .semicolon, .colon, .other] := by
  unfold token
  repeat' split
  all_goals simp

/-- Only on a line, outside brackets, does a sign end a statement. -/
theorem Place.isEnd_token {p : Place} {c : Char} (h : p = .line → c ≠ ';' ∧ c ≠ ':') :
    isEnd (p.token c) = false := by
  have hsemicolon : ¬(c = ';' ∧ p = .line) := fun hend => (h hend.2).1 hend.1
  have hcolon : ¬(c = ':' ∧ p = .line) := fun hend => (h hend.2).2 hend.1
  simp only [token, hsemicolon, hcolon, if_false]
  split
  next => rfl
  split
  next => rfl
  split <;> rfl

mutual

/-- Nothing inside brackets ends a statement. -/
theorem whole_code (c : Code) {p : Place} (hp : p ≠ .line) : Whole (c.tokens p) := by
  cases c with
  | nil => exact whole_nil
  | word w gap rest => simp [Code.tokens, whole_code rest hp]
  | sign c gap rest =>
    have hsign : isEnd (p.token c) = false := Place.isEnd_token fun h => absurd h hp
    simp [Code.tokens, hsign, whole_code rest hp]
  | bracket b lead inner gap rest =>
    have hinner : Whole (inner.tokens .bracket) := whole_code inner (by decide)
    simp [Code.tokens, hinner, whole_code rest hp]
  | literal v body gap rest => simp [Code.tokens, whole_text body, whole_code rest hp]

theorem whole_text (x : Text) : Whole x.tokens := by
  cases x with
  | nil => exact whole_nil
  | char c rest => exact whole_text rest
  | quote q rest => exact whole_text rest
  | escape c rest => exact whole_text rest
  | brace slash rest => exact whole_text rest
  | field slash lead code rest =>
    have hcode : Whole (code.tokens .field) := whole_code code (by decide)
    simp [Text.tokens, hcode, whole_text rest]
  | formatted slash lead code format rest =>
    have hcode : Whole (code.tokens .field) := whole_code code (by decide)
    simp [Text.tokens, hcode, whole_text format, whole_text rest]

end

theorem silent_leading_code {c : Code} (h : c.opens importWords = false) (p : Place) :
    Silent (leading (c.tokens p)) := by
  cases c with
  | nil => simp [Code.tokens, leading, Silent]
  | word w gap rest =>
    have hword {x : String} (hx : importWords.contains x = true) : String.ofList w ≠ x := by
      rintro rfl
      exact Bool.false_ne_true (h.symm.trans hx)
    have himport : String.ofList w ≠ "import" := hword (by decide)
    have hfrom : String.ofList w ≠ "from" := hword (by decide)
    simp [Code.tokens, leading, Silent, himport, hfrom]
  | sign c gap rest =>
    have hsign := p.token_cases c
    rw [Code.tokens]
    generalize p.token c = t at hsign
    simp only [List.mem_cons, List.not_mem_nil, or_false] at hsign
    rcases hsign with rfl | rfl | rfl | rfl | rfl | rfl <;> simp [leading, Silent]
  | bracket b lead inner gap rest => simp [Code.tokens, leading, Silent]
  | literal v body gap rest => simp [Code.tokens, leading, Silent]

/-- What is silent with more behind it is silent without. -/
theorem Silent.of_append {ts us : List Token} (h : Silent (leading (ts ++ us))) : Silent (leading ts) := by
  cases hdrop : ts.dropWhile (· == .join) with
  | nil => simp [leading, hdrop, Silent]
  | cons t ts' =>
    have happend : leading (ts ++ us) = leading ts := by
      rw [leading, leading, List.dropWhile_append, hdrop]
      rfl
    rwa [happend] at h

/-- Calm code has no addresses: no piece of it begins with an import. The first piece is followed from
some tokens in front of the code. -/
theorem harvest_calm (c : Code) (hc : c.isCalm = true) {ts : List Token} (hts : Whole ts)
    (hsilent : Silent (leading (ts ++ c.tokens .line))) : harvest (ts ++ c.tokens .line) = [] := by
  -- a lexeme that ends nothing joins the tokens in front
  have hstep (us : List Token) {rest : Code} (hus : Whole us) (hrest : rest.isCalm = true)
      (hlt : sizeOf rest < sizeOf c) (hsilent : Silent (leading (ts ++ (us ++ rest.tokens .line)))) :
      harvest (ts ++ (us ++ rest.tokens .line)) = [] := by
    rw [← List.append_assoc] at hsilent ⊢
    exact harvest_calm rest hrest (whole_append.mpr ⟨hts, hus⟩) hsilent
  cases c with
  | nil =>
    rw [Code.tokens, List.append_nil] at hsilent ⊢
    rw [harvest_of_whole hts, addresses_of_silent hsilent]
  | word w gap rest =>
    exact hstep (.word (String.ofList w) :: gap.tokens) (by simp) hc (by rw [Code.word.sizeOf_spec]; omega)
      hsilent
  | sign c gap rest =>
    simp only [Code.isCalm, Bool.and_eq_true, Bool.or_eq_true, bne_iff_ne, Bool.not_eq_true'] at hc
    obtain ⟨⟨hsemicolon, hcolon⟩, hrest⟩ := hc
    by_cases hc : c = ':'
    · subst hc
      have hopens : rest.opens importWords = false := hcolon.resolve_left fun h => h rfl
      have htokens : ts ++ (Code.sign ':' gap rest).tokens .line =
          ts ++ .colon :: (gap.tokens ++ rest.tokens .line) := rfl
      have hbehind : Silent (leading (gap.tokens ++ rest.tokens .line)) := by
        rw [gap.joins_tokens.leading_append]
        exact silent_leading_code hopens .line
      rw [htokens, harvest_append_cons rfl, harvest_of_whole hts, addresses_of_silent hsilent.of_append,
        harvest_calm rest hrest gap.whole_tokens hbehind]
      rfl
    · have hend : isEnd (Place.token .line c) = false := Place.isEnd_token fun _ => ⟨hsemicolon, hc⟩
      exact hstep (Place.token .line c :: gap.tokens) (by simp [hend]) hrest
        (by rw [Code.sign.sizeOf_spec]; omega) hsilent
  | bracket b lead inner gap rest =>
    have hinner : Whole (inner.tokens .bracket) := whole_code inner (by decide)
    exact hstep (.other :: lead.tokens ++ inner.tokens .bracket ++ .other :: gap.tokens)
      (by simp [hinner]) hc (by rw [Code.bracket.sizeOf_spec]; omega) hsilent
  | literal v body gap rest =>
    exact hstep (.other :: body.tokens ++ gap.tokens) (by simp [whole_text body]) hc
      (by rw [Code.literal.sizeOf_spec]; omega) hsilent

/-! ## Statements -/

theorem Dotted.whole_tokens (d : Dotted) : Whole d.tokens := by
  intro t ht
  rcases mem_tokens ht with rfl | ⟨n, rfl⟩ <;> rfl

theorem Listing.whole_tokens (l : Listing) : Whole l.tokens := by
  intro t ht
  rcases mem_tokens ht with rfl | rfl | rfl | ⟨w, rfl⟩ <;> rfl

theorem Base.whole_tokens (b : Base) : Whole b.tokens := by
  have hdots (gaps : List Gap) : Whole (gaps.flatMap (.dot :: Gap.tokens ·)) := by
    induction gaps with
    | nil => exact whole_nil
    | cons gap gaps ih => simp [ih]
  cases b with
  | absolute m behind => simp [tokens, m.whole_tokens]
  | relative dot dots m => cases m <;> simp [tokens, hdots, Dotted.whole_tokens]

theorem Target.whole_tokens (t : Target) : Whole t.tokens := by
  cases t with
  | names l => exact l.whole_tokens
  | group lead l comma behind => cases comma <;> simp [tokens, l.whole_tokens]
  | all behind => simp [tokens]

namespace Statement

theorem harvest_names (gap : Gap) (l : Listing) {js : List Token} (hjs : Joins js) :
    harvest (js ++ (names gap l).tokens) = (names gap l).addresses := by
  have hwhole : Whole (js ++ (names gap l).tokens) := by simp [tokens, hjs.whole, l.whole_tokens]
  have hnil : Joins [] := by simp [Joins]
  have hnames := l.importedNames_tokens gap.joins_tokens hnil
  rw [List.append_nil] at hnames
  rw [harvest_of_whole hwhole, tokens, addresses_import hjs, hnames]
  rfl

theorem harvest_members (gap : Gap) (base : Base) (behind : Gap) (target : Target) {js : List Token}
    (hjs : Joins js) : harvest (js ++ (members gap base behind target).tokens) =
      (members gap base behind target).addresses := by
  have hwhole : Whole (js ++ (members gap base behind target).tokens) := by
    simp [tokens, hjs.whole, base.whole_tokens, target.whole_tokens]
  have hfront : Token.word "import" ∉ gap.tokens ++ base.tokens := by
    intro h
    rcases List.mem_append.mp h with h | h
    · cases gap.joins_tokens _ h
    · exact Base.import_not_mem h
  rw [harvest_of_whole hwhole, tokens]
  cases base with
  | absolute m gap' =>
    have hm : trimJoins (gap.tokens ++ (Base.absolute m gap').tokens) = m.tokens :=
      trimJoins_append gap.joins_tokens gap'.joins_tokens (by simp [Dotted.tokens])
        fun h => Dotted.join_not_mem_tokens (List.mem_of_getLast? h)
    rw [addresses_absolute hjs hfront m hm, target.importedNames_tokens behind.joins_tokens]
    rfl
  | relative dot dots m =>
    obtain ⟨ts, hts⟩ : ∃ ts, (Base.relative dot dots m).tokens = .dot :: ts := ⟨_, rfl⟩
    refine addresses_relative hjs hfront ?_
    rw [hts]
    exact head?_trimJoins gap.joins_tokens (by decide) ts

/-- The pieces of a statement have its addresses. -/
theorem harvest_tokens (s : Statement) (hs : s.valid = true) {js : List Token} (hjs : Joins js) :
    harvest (js ++ s.tokens) = s.addresses := by
  cases s with
  | names gap l => exact harvest_names gap l hjs
  | members gap base behind target => exact harvest_members gap base behind target hjs
  | other c =>
    simp only [valid, Bool.and_eq_true, Bool.not_eq_true'] at hs
    obtain ⟨⟨-, hopens⟩, hcalm⟩ := hs
    have hopens : c.opens importWords = false := by
      cases c with
      | word w gap rest =>
        rw [Code.opens, List.contains_append, Bool.or_eq_false_iff] at hopens
        exact hopens.1
      | _ => rfl
    refine harvest_calm c hcalm hjs.whole ?_
    rw [hjs.leading_append]
    exact silent_leading_code hopens .line

end Statement

/-! ## Suites and heads -/

theorem harvest_joins {js : List Token} (hjs : Joins js) : harvest js = [] := by
  have hsilent : Silent (leading js) := by simp [leading, hjs.dropWhile_eq_nil, Silent]
  rw [harvest_of_whole hjs.whole, addresses_of_silent hsilent]

theorem Suite.harvest_tokens (s : Suite) (hs : s.valid = true) {js : List Token} (hjs : Joins js) :
    harvest (js ++ s.code.tokens .line) = s.addresses := by
  induction s generalizing js with
  | last s =>
    rw [code, Statement.tokens_code, Code.tokens, List.append_nil, s.harvest_tokens hs hjs]
    rfl
  | closed s gap =>
    have htokens : js ++ (closed s gap).code.tokens .line = (js ++ s.tokens) ++ .semicolon :: gap.tokens := by
      simp [code, Code.tokens, Place.token]
    rw [htokens, harvest_append_cons rfl, s.harvest_tokens hs hjs, harvest_joins gap.joins_tokens,
      List.append_nil]
    rfl
  | more s gap rest ih =>
    obtain ⟨hs, hrest⟩ := Bool.and_eq_true_iff.mp hs
    have htokens : js ++ (more s gap rest).code.tokens .line =
        (js ++ s.tokens) ++ .semicolon :: (gap.tokens ++ rest.code.tokens .line) := by
      simp [code, Code.tokens, Place.token]
    rw [htokens, harvest_append_cons rfl, s.harvest_tokens hs hjs, ih hrest gap.joins_tokens]
    rfl

namespace Head

variable {h : Head}

theorem tokens_code (h : Head) (k : Code) : (h.code k).tokens .line =
    (.word (String.ofList h.word) :: h.gap.tokens) ++ h.subject.tokens .line ++
      .colon :: (h.behind.tokens ++ k.tokens .line) := by
  simp [code, Code.tokens, Place.token]

/-- A head has no addresses of its own. -/
theorem harvest_code (hh : h.valid = true) (k : Code) :
    harvest ((h.code k).tokens .line) = harvest (h.behind.tokens ++ k.tokens .line) := by
  obtain ⟨hword, hcalm⟩ := Bool.and_eq_true_iff.mp hh
  have hclauses : clauseWords.all (fun w => !importWords.contains w) = true := by decide
  have hopens : (Code.word h.word [] .nil).opens importWords = false := by
    have hnot := List.all_eq_true.mp hclauses _ (List.contains_iff_mem.mp hword)
    exact (Bool.not_eq_true' _).mp hnot
  have hsilent : Silent (leading ((.word (String.ofList h.word) :: h.gap.tokens) ++ h.subject.tokens .line)) :=
    silent_leading_code hopens .line
  have hwhole : Whole (.word (String.ofList h.word) :: h.gap.tokens) := by simp
  rw [tokens_code, harvest_append_cons rfl, harvest_calm h.subject hcalm hwhole hsilent]
  rfl

end Head

/-! ## Nesting -/

/-- Whether a line begins with the head of a clause. -/
def beginsClause (ts : List Token) : Bool :=
  match ts with
  | .word w :: _ => headWords.contains w
  | _ => false

theorem Line.isNested_eq (l : Line) : l.isNested = (l.indented || beginsClause l.tokens) := rfl

theorem Head.beginsClause_code {h : Head} (hh : h.valid = true) (k : Code) :
    beginsClause ((h.code k).tokens .line) = true := by
  obtain ⟨hword, -⟩ := Bool.and_eq_true_iff.mp hh
  rw [tokens_code]
  exact hword

theorem Statement.beginsClause_code (s : Statement) (hs : s.valid = true) (k : Code) :
    beginsClause ((s.code k).tokens .line) = false := by
  cases s with
  | names gap l =>
    have himport : headWords.contains "import" = false := by decide
    exact himport
  | members gap base behind target =>
    have hfrom : headWords.contains "from" = false := by decide
    exact hfrom
  | other c =>
    simp only [valid, Bool.and_eq_true, Bool.not_eq_true'] at hs
    obtain ⟨⟨hnil, hopens⟩, -⟩ := hs
    rw [tokens_code, tokens]
    cases c with
    | nil => simp [Code.isNil] at hnil
    | word w gap rest =>
      rw [Code.opens, List.contains_append, Bool.or_eq_false_iff] at hopens
      exact hopens.2
    | sign c gap rest =>
      have hsign := Place.token_cases .line c
      rw [Code.tokens]
      generalize Place.token .line c = t at hsign
      simp only [List.mem_cons, List.not_mem_nil, or_false] at hsign
      rcases hsign with rfl | rfl | rfl | rfl | rfl | rfl <;> rfl
    | bracket b lead inner gap rest => rfl
    | literal v body gap rest => rfl

theorem Suite.beginsClause_code (s : Suite) (hs : s.valid = true) :
    beginsClause (s.code.tokens .line) = false := by
  cases s with
  | last s => exact s.beginsClause_code hs _
  | closed s gap => exact s.beginsClause_code hs _
  | more s gap rest => exact s.beginsClause_code (Bool.and_eq_true_iff.mp hs).1 _

end ImportAtlas.Imports
