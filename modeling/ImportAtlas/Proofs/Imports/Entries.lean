-- SUMMARY: The tokens of the names in an import yield these names.
import ImportAtlas.Proofs.Imports.Lexemes
import ImportAtlas.Proofs.Imports.Syntax
import Mathlib.Data.List.TakeWhile

/-! # The names in an import

What the scanner sees of an import are its tokens, in which a gap has left no more than joins. Cutting the
tokens of a listing at commas gives back its entries, with joins at both ends, which are trimmed, and an
alias, which is left out. -/

namespace ImportAtlas.Imports

/-! ## Tokens of statements -/

namespace Dotted

def tokens (d : Dotted) : List Token :=
  .word d.first.text :: d.more.flatMap fun p => [.dot, .word p.name.text]

end Dotted

def Alias.tokens (a : Alias) : List Token :=
  .word "as" :: a.gap.tokens ++ .word a.name.text :: a.behind.tokens

def Entry.tokens (e : Entry) : List Token :=
  e.name.tokens ++ (e.behind.tokens ++ e.alias?.elim [] Alias.tokens)

def Further.tokens (f : Further) : List Token := .comma :: f.gap.tokens ++ f.entry.tokens

def Listing.tokens (l : Listing) : List Token := l.first.tokens ++ l.more.flatMap Further.tokens

def Target.tokens : Target → List Token
  | names l => l.tokens
  | group lead l comma behind =>
    .other :: lead.tokens ++ (l.tokens ++ comma.elim [] (.comma :: Gap.tokens ·)) ++ .other :: behind.tokens
  | all behind => .star :: behind.tokens

def Base.tokens : Base → List Token
  | absolute m behind => m.tokens ++ behind.tokens
  | relative dot dots m =>
    (dot :: dots).flatMap (.dot :: Gap.tokens ·) ++ m.elim [] fun x => x.1.tokens ++ x.2.tokens

def Statement.tokens : Statement → List Token
  | names gap l => .word "import" :: (gap.tokens ++ l.tokens)
  | members gap base behind target =>
    .word "from" :: (gap.tokens ++ base.tokens ++ .word "import" :: (behind.tokens ++ target.tokens))
  | other c => c.tokens .line

section
variable (p : Place) (k : Code)

@[simp] theorem tokens_blanks (bs : List Blank) : Gap.tokens (blanks bs) = [] := by
  simp [blanks, Gap.tokens, Filler.tokens]

@[simp] theorem Dotted.tokens_code (d : Dotted) (gap : Gap) :
    (d.code gap k).tokens p = d.tokens ++ (gap.tokens ++ k.tokens p) := by
  obtain ⟨n, ps⟩ := d
  rw [code, tokens]
  induction ps generalizing n with
  | nil => simp [chain, Code.tokens, Name.text]
  | cons q ps ih => simp [chain, Code.tokens, ih, Place.token, Name.text]

@[simp] theorem Entry.tokens_code (e : Entry) : (e.code k).tokens p = e.tokens ++ k.tokens p := by
  cases ha : e.alias? with
  | none => simp [code, tokens, ha]
  | some a => simp [code, tokens, ha, Alias.code, Alias.tokens, Code.tokens, Name.text]

theorem Listing.tokens_tail (fs : List Further) :
    (tail fs k).tokens p = fs.flatMap Further.tokens ++ k.tokens p := by
  induction fs with
  | nil => rfl
  | cons f fs ih => simp [tail, Code.tokens, ih, Further.tokens, Place.token]

@[simp] theorem Listing.tokens_code (l : Listing) : (l.code k).tokens p = l.tokens ++ k.tokens p := by
  simp [code, tokens, tokens_tail]

@[simp] theorem Target.tokens_code (t : Target) : (t.code k).tokens p = t.tokens ++ k.tokens p := by
  cases t with
  | names l => simp [code, tokens]
  | group lead l comma behind => cases comma <;> simp [code, tokens, Code.tokens, Place.token]
  | all behind => simp [code, tokens, Code.tokens, Place.token]

theorem Base.tokens_dotsCode (gaps : List Gap) :
    (dotsCode gaps k).tokens p = gaps.flatMap (.dot :: Gap.tokens ·) ++ k.tokens p := by
  induction gaps with
  | nil => rfl
  | cons gap gaps ih => simp [dotsCode, Code.tokens, ih, Place.token]

@[simp] theorem Base.tokens_code (b : Base) : (b.code k).tokens p = b.tokens ++ k.tokens p := by
  cases b with
  | absolute m behind => simp [code, tokens]
  | relative dot dots m => cases m <;> simp [code, tokens, tokens_dotsCode]

@[simp] theorem Code.tokens_append (c : Code) : (c.append k).tokens p = c.tokens p ++ k.tokens p := by
  fun_induction append c k with
  | case1 k => rfl
  | case2 k w gap rest ih => simp [tokens, ih]
  | case3 k c gap rest ih => simp [tokens, ih]
  | case4 k b lead inner gap rest ih => simp [tokens, ih]
  | case5 k v body gap rest ih => simp [tokens, ih]

@[simp] theorem Statement.tokens_code (s : Statement) :
    (s.code k).tokens .line = s.tokens ++ k.tokens .line := by
  cases s with
  | names gap l => simp [code, tokens, Code.tokens]
  | members gap base behind target => simp [code, tokens, Code.tokens]
  | other c => simp [code, tokens]

end

/-! ## Cutting -/

section
variable {q : Token → Bool}

theorem cut_ne_nil (ts : List Token) : cut q ts ≠ [] := by
  cases ts with
  | nil => simp [cut]
  | cons t ts =>
    rw [cut]
    split
    next => simp
    next => split <;> simp

theorem cut_of_forall {ts : List Token} (h : ∀ t ∈ ts, q t = false) : cut q ts = [ts] := by
  induction ts with
  | nil => rfl
  | cons t ts ih =>
    have ht : q t = false := h t List.mem_cons_self
    rw [cut, ih fun x hx => h x (List.mem_cons_of_mem t hx)]
    simp [ht]

/-- A token that cuts parts what is in front of it from what is behind it. -/
theorem cut_append_cons {t : Token} (ht : q t = true) (ts us : List Token) :
    cut q (ts ++ t :: us) = cut q ts ++ cut q us := by
  induction ts with
  | nil => simp [cut, ht]
  | cons x ts ih =>
    rw [List.cons_append, cut, cut, ih]
    split
    next => rfl
    next =>
      obtain ⟨seg, segs, hcut⟩ := List.exists_cons_of_ne_nil (cut_ne_nil (q := q) ts)
      rw [hcut]
      rfl

end

/-- The tokens that end a statement. -/
def isEnd (t : Token) : Bool := t == .semicolon || t == .colon

/-- The addresses in the pieces of some tokens. -/
def harvest (ts : List Token) : List String := (cut isEnd ts).flatMap Imports.addresses

theorem Line.imports_eq (l : Line) : l.imports = (harvest l.tokens).map (⟨·, l.isNested⟩) := by
  rw [Line.imports, harvest, List.map_flatMap]
  rfl

theorem harvest_append_cons {t : Token} (ht : isEnd t = true) (ts us : List Token) :
    harvest (ts ++ t :: us) = harvest ts ++ harvest us := by
  rw [harvest, cut_append_cons ht, List.flatMap_append]
  rfl

/-- None of the tokens ends a statement. -/
def Whole (ts : List Token) : Prop := ∀ t ∈ ts, isEnd t = false

@[simp] theorem whole_nil : Whole [] := by simp [Whole]

@[simp] theorem whole_cons {t : Token} {ts : List Token} :
    Whole (t :: ts) ↔ isEnd t = false ∧ Whole ts := by
  simp [Whole]

@[simp] theorem whole_append {ts us : List Token} : Whole (ts ++ us) ↔ Whole ts ∧ Whole us := by
  simp [Whole, or_imp, forall_and]

@[simp] theorem isEnd_word (w : String) : isEnd (.word w) = false := rfl

@[simp] theorem isEnd_dot : isEnd .dot = false := rfl

@[simp] theorem isEnd_comma : isEnd .comma = false := rfl

@[simp] theorem isEnd_star : isEnd .star = false := rfl

@[simp] theorem isEnd_other : isEnd .other = false := rfl

theorem harvest_of_whole {ts : List Token} (h : Whole ts) : harvest ts = Imports.addresses ts := by
  simp [harvest, cut_of_forall h]

/-! ## Joins -/

def Joins (ts : List Token) : Prop := ∀ t ∈ ts, t = .join

theorem Filler.joins_tokens (f : Filler) : Joins f.tokens := by
  cases f <;> simp [Joins, tokens]

theorem Gap.joins_tokens (gap : Gap) : Joins gap.tokens := by
  intro t ht
  obtain ⟨f, -, hf⟩ := List.mem_flatMap.mp ht
  exact f.joins_tokens t hf

theorem Joins.append {ts us : List Token} (h : Joins ts) (h' : Joins us) : Joins (ts ++ us) := by
  intro t ht
  exact (List.mem_append.mp ht).elim (h t) (h' t)

theorem Joins.dropWhile_append {js : List Token} (h : Joins js) (ts : List Token) :
    (js ++ ts).dropWhile (· == .join) = ts.dropWhile (· == .join) := by
  induction js with
  | nil => rfl
  | cons j js ih =>
    obtain rfl : j = .join := h j List.mem_cons_self
    exact ih fun t ht => h t (List.mem_cons_of_mem _ ht)

theorem Joins.dropWhile_eq_nil {js : List Token} (h : Joins js) : js.dropWhile (· == .join) = [] := by
  have hdrop := h.dropWhile_append []
  rwa [List.append_nil] at hdrop

theorem Joins.reverse {js : List Token} (h : Joins js) : Joins js.reverse :=
  fun t ht => h t (List.mem_reverse.mp ht)

/-- Joins at both ends are trimmed. -/
theorem trimJoins_append {js js' ts : List Token} (hjs : Joins js) (hjs' : Joins js')
    (hhead : ts.head? ≠ some .join) (hlast : ts.getLast? ≠ some .join) :
    trimJoins (js ++ (ts ++ js')) = ts := by
  have hkeep {us : List Token} (h : us.head? ≠ some .join) : us.dropWhile (· == .join) = us := by
    cases us with
    | nil => rfl
    | cons u us =>
      have hu : u ≠ .join := by simpa using h
      simp [hu]
  cases hts : ts with
  | nil =>
    rw [trimJoins, hjs.dropWhile_append, List.nil_append, hjs'.dropWhile_eq_nil]
    rfl
  | cons t us =>
    have hfront : (ts ++ js').dropWhile (· == .join) = ts ++ js' := by
      refine hkeep ?_
      rw [hts] at hhead ⊢
      exact hhead
    rw [← hts, trimJoins, hjs.dropWhile_append, hfront, List.reverse_append, hjs'.reverse.dropWhile_append,
      hkeep (by rwa [List.head?_reverse]), List.reverse_reverse]

/-! ## Names -/

/-- A name is no reserved word. -/
theorem Name.text_ne {n : Name} {w : String} (hw : keywords.contains w = true) : n.text ≠ w := by
  rintro rfl
  exact Bool.false_ne_true (n.free.symm.trans hw)

theorem Name.text_ne_empty (n : Name) : n.text ≠ "" := by
  intro h
  have hletters : n.letters = [] := String.ofList_inj.mp h
  have hnonempty := n.nonempty
  rw [hletters] at hnonempty
  contradiction

namespace Dotted

variable {d : Dotted}

theorem mem_tokens {t : Token} (h : t ∈ d.tokens) : t = .dot ∨ ∃ n : Name, t = .word n.text := by
  rcases List.mem_cons.mp h with rfl | h
  · exact .inr ⟨d.first, rfl⟩
  · obtain ⟨p, -, hp⟩ := List.mem_flatMap.mp h
    rcases List.mem_cons.mp hp with rfl | hp
    · exact .inl rfl
    · exact .inr ⟨p.name, List.mem_singleton.mp hp⟩

theorem join_not_mem_tokens : Token.join ∉ d.tokens := by
  intro h
  rcases mem_tokens h with h | ⟨n, h⟩ <;> cases h

/-- No reserved word is in a dotted name. -/
theorem word_not_mem_tokens {w : String} (hw : keywords.contains w = true) :
    Token.word w ∉ d.tokens := by
  intro h
  rcases mem_tokens h with h | ⟨n, h⟩
  · cases h
  · exact Name.text_ne hw (Token.word.inj h).symm

theorem text_ne_empty (d : Dotted) : d.text ≠ "" := by
  intro h
  rw [text, String.append_eq_empty_iff] at h
  exact d.first.text_ne_empty h.1

theorem join_map_text_tokens (d : Dotted) : String.join (d.tokens.map Token.text) = d.text := by
  have hmore (ps : List Part) :
      String.join ((ps.flatMap fun p => [Token.dot, .word p.name.text]).map Token.text) =
        String.join (ps.map fun p => "." ++ p.name.text) := by
    induction ps with
    | nil => rfl
    | cons p ps ih => simp [Token.text, String.join_cons, ih, String.append_assoc]
  rw [tokens, List.map_cons, String.join_cons, hmore]
  rfl

theorem dottedName_tokens (d : Dotted) {js js' : List Token} (hjs : Joins js) (hjs' : Joins js') :
    dottedName (js ++ (d.tokens ++ js')) = d.text := by
  have hlast : d.tokens.getLast? ≠ some .join :=
    fun h => join_not_mem_tokens (List.mem_of_getLast? h)
  rw [dottedName, trimJoins_append hjs hjs' (by simp [tokens]) hlast, join_map_text_tokens]

end Dotted

/-! ## Entries -/

/-- The name that the tokens of an entry spell. -/
def entryName (ts : List Token) : String := dottedName (ts.takeWhile (· != .word "as"))

theorem entryName_joins {js : List Token} (hjs : Joins js) : entryName js = "" := by
  have htake : Joins (js.takeWhile (· != .word "as")) :=
    fun t ht => hjs t (List.takeWhile_subset _ ht)
  rw [entryName, dottedName, trimJoins, htake.dropWhile_eq_nil]
  rfl

namespace Entry

variable {e : Entry}

theorem mem_tokens {t : Token} (h : t ∈ e.tokens) : t = .dot ∨ t = .join ∨ ∃ w, t = .word w := by
  have hjoin {gap : Gap} (h : t ∈ gap.tokens) : t = .dot ∨ t = .join ∨ ∃ w, t = .word w :=
    .inr (.inl (gap.joins_tokens t h))
  rcases List.mem_append.mp h with h | h
  · rcases Dotted.mem_tokens h with rfl | ⟨n, rfl⟩
    · exact .inl rfl
    · exact .inr (.inr ⟨n.text, rfl⟩)
  rcases List.mem_append.mp h with h | h
  · exact hjoin h
  cases ha : e.alias? with
  | none => simp [ha] at h
  | some a =>
    simp only [ha, Option.elim_some, Alias.tokens, List.cons_append, List.mem_cons, List.mem_append] at h
    rcases h with rfl | h | rfl | h
    · exact .inr (.inr ⟨_, rfl⟩)
    · exact hjoin h
    · exact .inr (.inr ⟨_, rfl⟩)
    · exact hjoin h

/-- The name of an entry is what stands in front of its alias. -/
theorem entryName_tokens (e : Entry) {js js' : List Token} (hjs : Joins js) (hjs' : Joins js') :
    entryName (js ++ (e.tokens ++ js')) = e.name.text := by
  have hjoins {us : List Token} (h : Joins us) : ∀ t ∈ us, (t != .word "as") = true := by
    intro t ht
    rw [h t ht]
    rfl
  have hname : ∀ t ∈ e.name.tokens, (t != .word "as") = true := by
    intro t ht
    refine bne_iff_ne.mpr fun h => ?_
    exact Dotted.word_not_mem_tokens (by decide) (h ▸ ht)
  have hfront : ∀ t ∈ js ++ (e.name.tokens ++ e.behind.tokens), (t != .word "as") = true := by
    intro t ht
    simp only [List.mem_append] at ht
    rcases ht with h | h | h
    · exact hjoins hjs t h
    · exact hname t h
    · exact hjoins e.behind.joins_tokens t h
  cases ha : e.alias? with
  | none =>
    have htokens : js ++ (e.tokens ++ js') = js ++ (e.name.tokens ++ e.behind.tokens) ++ js' := by
      simp [tokens, ha]
    rw [entryName, htokens, List.takeWhile_append_of_pos hfront,
      List.takeWhile_eq_self_iff.mpr (hjoins hjs'), List.append_assoc, List.append_assoc]
    exact e.name.dottedName_tokens hjs (e.behind.joins_tokens.append hjs')
  | some a =>
    have htokens : js ++ (e.tokens ++ js') = js ++ (e.name.tokens ++ e.behind.tokens) ++
        (.word "as" :: (a.gap.tokens ++ (.word a.name.text :: (a.behind.tokens ++ js')))) := by
      simp [tokens, ha, Alias.tokens]
    rw [entryName, htokens, List.takeWhile_append_of_pos hfront, List.takeWhile_cons_of_neg (by simp),
      List.append_nil]
    exact e.name.dottedName_tokens hjs e.behind.joins_tokens

theorem comma_not_mem {js js' : List Token} (hjs : Joins js) (hjs' : Joins js') :
    ∀ t ∈ js ++ (e.tokens ++ js'), (t == Token.comma) = false := by
  intro t ht
  simp only [List.mem_append] at ht
  rcases ht with h | h | h
  · rw [hjs t h]
    rfl
  · rcases mem_tokens h with rfl | rfl | ⟨w, rfl⟩ <;> rfl
  · rw [hjs' t h]
    rfl

end Entry

namespace Listing

theorem map_entryName_cut (l : Listing) {js js' : List Token} (hjs : Joins js) (hjs' : Joins js') :
    (cut (· == .comma) (js ++ (l.tokens ++ js'))).map entryName = l.names := by
  obtain ⟨e, fs⟩ := l
  induction fs generalizing e js with
  | nil =>
    have htokens : (⟨e, []⟩ : Listing).tokens = e.tokens := by simp [tokens]
    rw [htokens, cut_of_forall (Entry.comma_not_mem hjs hjs'), List.map_singleton,
      e.entryName_tokens hjs hjs']
    rfl
  | cons f fs ih =>
    have htokens : js ++ ((⟨e, f :: fs⟩ : Listing).tokens ++ js') = (js ++ (e.tokens ++ [])) ++
        .comma :: (f.gap.tokens ++ ((⟨f.entry, fs⟩ : Listing).tokens ++ js')) := by
      simp [tokens, Further.tokens]
    have hnil : Joins [] := by simp [Joins]
    rw [htokens, cut_append_cons rfl, List.map_append, ih f.gap.joins_tokens f.entry,
      cut_of_forall (Entry.comma_not_mem hjs hnil), List.map_singleton, e.entryName_tokens hjs hnil]
    rfl

theorem mem_tokens {l : Listing} {t : Token} (h : t ∈ l.tokens) :
    t = .dot ∨ t = .join ∨ t = .comma ∨ ∃ w, t = .word w := by
  have hentry {e : Entry} (h : t ∈ e.tokens) : t = .dot ∨ t = .join ∨ t = .comma ∨ ∃ w, t = .word w := by
    rcases Entry.mem_tokens h with h | h | h
    · exact .inl h
    · exact .inr (.inl h)
    · exact .inr (.inr (.inr h))
  rcases List.mem_append.mp h with h | h
  · exact hentry h
  · obtain ⟨f, -, hf⟩ := List.mem_flatMap.mp h
    simp only [Further.tokens, List.cons_append, List.mem_cons, List.mem_append] at hf
    rcases hf with h | h | h
    · exact .inr (.inr (.inl h))
    · exact .inr (.inl (f.gap.joins_tokens t h))
    · exact hentry h

theorem filter_names (l : Listing) : l.names.filter (· != "") = l.names := by
  refine List.filter_eq_self.mpr fun n hn => ?_
  obtain ⟨e, -, rfl⟩ := List.mem_map.mp hn
  exact bne_iff_ne.mpr e.name.text_ne_empty

end Listing

/-! ## Imports -/

theorem importedNames_eq (ts : List Token) : importedNames ts =
    ((cut (· == .comma) (ts.filter (· != .other))).map entryName).filter (· != "") := rfl

theorem filter_other_joins {js : List Token} (hjs : Joins js) : js.filter (· != .other) = js := by
  refine List.filter_eq_self.mpr fun t ht => ?_
  rw [hjs t ht]
  rfl

theorem Listing.filter_other_tokens (l : Listing) : l.tokens.filter (· != .other) = l.tokens := by
  refine List.filter_eq_self.mpr fun t ht => ?_
  rcases mem_tokens ht with rfl | rfl | rfl | ⟨w, rfl⟩ <;> rfl

theorem Listing.importedNames_tokens (l : Listing) {js js' : List Token} (hjs : Joins js)
    (hjs' : Joins js') : importedNames (js ++ (l.tokens ++ js')) = l.names := by
  rw [importedNames_eq, List.filter_append, List.filter_append, filter_other_joins hjs,
    l.filter_other_tokens, filter_other_joins hjs', l.map_entryName_cut hjs hjs', l.filter_names]

/-- A comma behind the last name adds no name. -/
theorem Listing.importedNames_comma (l : Listing) {js js' : List Token} (hjs : Joins js)
    (hjs' : Joins js') : importedNames (js ++ (l.tokens ++ .comma :: js')) = l.names := by
  have htokens : js ++ (l.tokens ++ .comma :: js') = (js ++ (l.tokens ++ [])) ++ .comma :: js' := by simp
  have hnil : Joins [] := by simp [Joins]
  have hcommas : ∀ t ∈ js', (t == Token.comma) = false := by
    intro t ht
    rw [hjs' t ht]
    rfl
  rw [importedNames_eq, List.filter_append, List.filter_append, filter_other_joins hjs,
    l.filter_other_tokens, List.filter_cons_of_pos (by rfl), filter_other_joins hjs', htokens,
    cut_append_cons rfl, List.map_append, l.map_entryName_cut hjs hnil, cut_of_forall hcommas,
    List.map_singleton, entryName_joins hjs', List.filter_append, l.filter_names]
  simp

/-- Brackets around names do not matter. -/
theorem Target.importedNames_tokens (t : Target) {js : List Token} (hjs : Joins js) :
    importedNames (js ++ t.tokens) = t.words := by
  cases t with
  | names l =>
    have hnil : Joins [] := by simp [Joins]
    have hnames := l.importedNames_tokens hjs hnil
    rwa [List.append_nil] at hnames
  | group lead l comma behind =>
    have hjs' := hjs.append lead.joins_tokens
    have hfilter (us : List Token) : importedNames (js ++ (.other :: lead.tokens ++ us ++
        .other :: behind.tokens)) = importedNames (js ++ lead.tokens ++ (us ++ behind.tokens)) := by
      simp [importedNames_eq]
    rw [tokens, hfilter]
    cases comma with
    | none =>
      rw [Option.elim_none, List.append_nil]
      exact l.importedNames_tokens hjs' behind.joins_tokens
    | some gap =>
      have hnames := l.importedNames_comma hjs' (gap.joins_tokens.append behind.joins_tokens)
      simpa only [words, Option.elim_some, List.append_assoc, List.cons_append] using hnames
  | all behind =>
    have hjoins {us : List Token} (h : Joins us) {q : Token → Bool} (hq : q .join = true) :
        ∀ t ∈ us, q t = true := by
      intro t ht
      rw [h t ht]
      exact hq
    have hall {q : Token → Bool} (hjoin : q .join = true) (hstar : q .star = true) :
        ∀ t ∈ js ++ ([Token.star] ++ behind.tokens), q t = true := by
      intro t ht
      simp only [List.mem_append, List.mem_singleton] at ht
      rcases ht with h | rfl | h
      · exact hjoins hjs hjoin t h
      · exact hstar
      · exact hjoins behind.joins_tokens hjoin t h
    have hcut : ∀ t ∈ js ++ ([Token.star] ++ behind.tokens), (t == Token.comma) = false :=
      fun t ht => Bool.not_eq_true' _ ▸ hall (q := fun t => !(t == .comma)) rfl rfl t ht
    have hname : entryName (js ++ ([Token.star] ++ behind.tokens)) = "*" := by
      rw [entryName, List.takeWhile_eq_self_iff.mpr (hall rfl rfl), dottedName,
        trimJoins_append hjs behind.joins_tokens (by simp) (by simp)]
      rfl
    change importedNames (js ++ ([Token.star] ++ behind.tokens)) = ["*"]
    rw [importedNames_eq, List.filter_eq_self.mpr (hall rfl rfl), cut_of_forall hcut, List.map_singleton,
      hname]
    decide

end ImportAtlas.Imports
