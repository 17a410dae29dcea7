-- SUMMARY: Places in a text, told from the characters alone, and whether a cut falls inside a number.
import ImportAtlas.Proofs.Json.Values

/-! # Places

Going through a text one can tell from the characters alone whether one is between tokens, in a word, in a
number or in a string. This matters where a text is cut: a string has to be closed and a word has to be
complete, but a number has no end of its own, and a text that is cut inside a number may mean something
else than the whole. -/

namespace ImportAtlas.Json

/-- How far a number has got. -/
inductive Part where
  | minus
  /-- a zero that begins the number -/
  | zero
  | whole
  | point
  | fraction
  /-- the letter before an exponent -/
  | mark
  | sign
  | exponent
  deriving DecidableEq, Repr

namespace Part

/-- The part that a character begins a number with. -/
def first? (c : Char) : Option Part :=
  if c = '-' then some minus else if c = '0' then some zero else if isDigit c then some whole else none

/-- The part that a character goes on with. -/
def next? : Part → Char → Option Part
  | minus, c => if c = '0' then some zero else if isDigit c then some whole else none
  | zero, c => if c = '.' then some point else if c = 'e' ∨ c = 'E' then some mark else none
  | whole, c =>
    if isDigit c then some whole
    else if c = '.' then some point else if c = 'e' ∨ c = 'E' then some mark else none
  | point, c => if isDigit c then some fraction else none
  | fraction, c =>
    if isDigit c then some fraction else if c = 'e' ∨ c = 'E' then some mark else none
  | mark, c => if isDigit c then some exponent else if c = '+' ∨ c = '-' then some sign else none
  | sign, c => if isDigit c then some exponent else none
  | exponent, c => if isDigit c then some exponent else none

end Part

/-- The characters of numbers. -/
def isNumeric (c : Char) : Bool := isDigit c || ['-', '+', '.', 'e', 'E'].contains c

/-- The characters that stand for themselves. -/
def isMark (c : Char) : Bool := ['{', '}', '[', ']', ':', ','].contains c

theorem isNumeric_of_isDigit {c : Char} (h : isDigit c = true) : isNumeric c = true := by
  rw [isNumeric, h, Bool.true_or]

theorem isDigit_of_not_isNumeric {c : Char} (h : isNumeric c = false) : isDigit c = false := by
  rw [isNumeric, Bool.or_eq_false_iff] at h
  exact h.1

theorem isNumeric_of_first? {c : Char} {p : Part} (h : Part.first? c = some p) : isNumeric c = true := by
  unfold Part.first? at h
  split at h
  next hc => rw [hc]; decide
  next =>
    split at h
    next hc => rw [hc]; decide
    next =>
      split at h
      next hc => exact isNumeric_of_isDigit hc
      next => contradiction

theorem isNumeric_of_next? {p p' : Part} {c : Char} (h : p.next? c = some p') : isNumeric c = true := by
  cases hc : isNumeric c with
  | true => rfl
  | false =>
    have hne {d : Char} (hd : isNumeric d = true) : c ≠ d := by
      rintro rfl
      rw [hc] at hd
      contradiction
    have hzero : c ≠ '0' := hne (by decide)
    have hpoint : c ≠ '.' := hne (by decide)
    have hmark : ¬ (c = 'e' ∨ c = 'E') := not_or.2 ⟨hne (by decide), hne (by decide)⟩
    have hsign : ¬ (c = '+' ∨ c = '-') := not_or.2 ⟨hne (by decide), hne (by decide)⟩
    have hdigit : ¬ isDigit c = true := by simp [isDigit_of_not_isNumeric hc]
    cases p <;> simp only [Part.next?, hzero, hpoint, hmark, hsign, hdigit, reduceIte] at h <;> contradiction

/-- Where one can be in a text. -/
inductive Place where
  /-- between tokens -/
  | between
  /-- in a word, or in something that is no token -/
  | word
  | number (part : Part)
  | string
  /-- in a string behind a backslash -/
  | escape
  deriving DecidableEq, Repr

namespace Place

/-- The place behind a character that is neither in a string nor in a number. -/
def apart (c : Char) : Place :=
  if c = '"' then string else if isBlank c || isMark c then between else word

/-- The place behind another character. -/
def next : Place → Char → Place
  | between, c =>
    match Part.first? c with
    | some p => number p
    | none => apart c
  | word, c => apart c
  | number p, c =>
    match p.next? c with
    | some p' => number p'
    | none => apart c
  | string, c => if c = '"' then between else if c = '\\' then escape else string
  | escape, _ => string

/-- The place behind some characters. -/
def behind (q : Place) (s : List Char) : Place := s.foldl next q

@[simp] theorem behind_nil (q : Place) : q.behind [] = q := rfl

@[simp] theorem behind_cons (q : Place) (c : Char) (s : List Char) :
    q.behind (c :: s) = (q.next c).behind s := rfl

theorem behind_append (q : Place) (s t : List Char) : q.behind (s ++ t) = (q.behind s).behind t :=
  List.foldl_append

def isNumber : Place → Bool
  | number _ => true
  | _ => false

def isQuoted : Place → Bool
  | string | escape => true
  | _ => false

theorem apart_of_isNumeric {c : Char} (h : isNumeric c = true) : apart c = word := by
  have hne {d : Char} (hd : isNumeric d = false) : c ≠ d := by
    rintro rfl
    rw [h] at hd
    contradiction
  have hquote : c ≠ '"' := hne (by decide)
  have hblank : isBlank c = false := by
    simp only [isBlank, Bool.or_eq_false_iff, beq_eq_false_iff_ne]
    exact ⟨⟨⟨hne (by decide), hne (by decide)⟩, hne (by decide)⟩, hne (by decide)⟩
  have hmark : isMark c = false := by
    simp only [isMark, List.contains_eq_mem, List.mem_cons, List.not_mem_nil, or_false,
      decide_eq_false_iff_not, not_or]
    exact ⟨hne (by decide), hne (by decide), hne (by decide), hne (by decide), hne (by decide),
      hne (by decide)⟩
  rw [apart, if_neg hquote, hblank, hmark]
  rfl

/-- Outside strings a character either belongs to a number or is taken for itself. -/
theorem next_cases {q : Place} (hq : q.isQuoted = false) (c : Char) :
    q.next c = apart c ∨ isNumeric c = true ∧ ∃ p, q.next c = number p := by
  cases q with
  | between =>
    simp only [next]
    split
    next p hp => exact .inr ⟨isNumeric_of_first? hp, p, rfl⟩
    next => exact .inl rfl
  | word => exact .inl rfl
  | number p =>
    simp only [next]
    split
    next p' hp => exact .inr ⟨isNumeric_of_next? hp, p', rfl⟩
    next => exact .inl rfl
  | string => contradiction
  | escape => contradiction

theorem isNumeric_of_isNumber_next {q : Place} {c : Char} (h : (q.next c).isNumber = true) :
    isNumeric c = true := by
  have hapart : (apart c).isNumber = false := by
    unfold apart
    split
    next => rfl
    next => split <;> rfl
  cases hq : q.isQuoted with
  | false =>
    rcases next_cases hq c with hnext | ⟨hc, -⟩
    · rw [hnext, hapart] at h
      contradiction
    · exact hc
  | true =>
    cases q with
    | string =>
      simp only [next] at h
      split at h
      next => contradiction
      next => split at h <;> contradiction
    | escape => contradiction
    | _ => contradiction

theorem not_isNumber_next {q : Place} {c : Char} (hc : isNumeric c = false) :
    (q.next c).isNumber = false := by
  cases hnext : (q.next c).isNumber with
  | false => rfl
  | true =>
    rw [isNumeric_of_isNumber_next hnext] at hc
    contradiction

theorem not_isNumber_behind {q : Place} {s : List Char} (hq : q.isNumber = false)
    (hs : ∀ c ∈ s, isNumeric c = false) : (q.behind s).isNumber = false := by
  induction s generalizing q with
  | nil => exact hq
  | cons c s ih =>
    have hnext : (q.next c).isNumber = false := not_isNumber_next (hs c List.mem_cons_self)
    exact ih hnext fun d hd => hs d (List.mem_cons_of_mem c hd)

/-- Whoever takes the rest of a number for a word is right again behind the number. -/
theorem isNumber_of_word {q : Place} {s : List Char} (hq : q.isQuoted = false)
    (h : (word.behind s).isNumber = true) : (q.behind s).isNumber = true := by
  induction s generalizing q with
  | nil => contradiction
  | cons c s ih =>
    have hword : word.next c = apart c := rfl
    rw [behind_cons, hword] at h
    rw [behind_cons]
    rcases next_cases hq c with hnext | ⟨hc, p, hnext⟩
    · rwa [hnext]
    · rw [hnext]
      rw [apart_of_isNumeric hc] at h
      exact ih rfl h

end Place

/-- A text, entered at a place, does not end inside a number that goes on in `w`. -/
def Clear (w : List Char) (q : Place) (s : List Char) : Prop :=
  (q.behind s).isNumber = true → ∀ c ∈ w.head?, isNumeric c = false

namespace Clear

variable {w s r : List Char} {q q' : Place} {p p' : Part} {c : Char}

theorem congr (h : Clear w q s) (hplace : q.behind s = q'.behind r) : Clear w q' r := by
  intro hnumber
  rw [← hplace] at hnumber
  exact h hnumber

theorem word (h : Clear w q s) (hq : q.isQuoted = false) : Clear w .word s := by
  intro hnumber
  exact h (Place.isNumber_of_word hq hnumber)

/-- Two parts of a number that go on in the same way. -/
theorem part (h : Clear w (.number p) s) (hp : ∀ c ∈ s.head?, p.next? c = p'.next? c) :
    Clear w (.number p') s := by
  cases s with
  | nil => exact h
  | cons c s =>
    refine h.congr ?_
    simp only [Place.behind_cons, Place.next, hp c rfl]

theorem next (h : Clear w (.number p) (c :: s)) (hp : p.next? c = some p') : Clear w (.number p') s := by
  refine h.congr ?_
  simp only [Place.behind_cons, Place.next, hp]

/-- At the end of a number the text behind it does not go on with one. -/
theorem head (h : Clear w (.number p) []) {c : Char} (hc : w.head? = some c) : isNumeric c = false :=
  h rfl c hc

/-- What does not follow a number in a text does not follow it in the longer text. -/
theorem head?_append_ne (h : Clear w (.number p) r) (hc : isNumeric c = true) (hr : r.head? ≠ some c) :
    (r ++ w).head? ≠ some c := by
  cases r with
  | nil =>
    intro hw
    rw [h.head hw] at hc
    contradiction
  | cons c r => exact hr

theorem noDigit_append (h : Clear w (.number p) r) (hr : Reader.NoDigit r) : Reader.NoDigit (r ++ w) := by
  cases r with
  | nil =>
    intro c hc
    exact isDigit_of_not_isNumeric (h.head hc)
  | cons c r => exact hr

theorem of_digits {ds : List Char} (hp : ∀ c, isDigit c = true → p.next? c = some p)
    (hds : AllDigits ds) (h : Clear w (.number p) (ds ++ r)) : Clear w (.number p) r := by
  induction ds with
  | nil => exact h
  | cons d ds ih =>
    refine ih (fun c hc => hds c (List.mem_cons_of_mem d hc)) ?_
    exact h.next (hp d (hds d List.mem_cons_self))

end Clear

section
variable {w s : List Char} {q : Place}

theorem next_of_isBlank {c : Char} (hc : isBlank c = true) (hq : q = .between ∨ q = .word) :
    q.next c = .between := by
  have hquote : c ≠ '"' := by
    rintro rfl
    contradiction
  have hapart : Place.apart c = .between := by
    rw [Place.apart, if_neg hquote, hc]
    rfl
  have hminus : c ≠ '-' := by
    rintro rfl
    contradiction
  have hzero : c ≠ '0' := by
    rintro rfl
    contradiction
  have hfirst : Part.first? c = none := by
    rw [Part.first?, if_neg hminus, if_neg hzero, isDigit_eq_false_of_isBlank hc]
    rfl
  rcases hq with rfl | rfl
  · simp only [Place.next, hfirst, hapart]
  · exact hapart

theorem Clear.dropBlanks (h : Clear w q s) (hq : q = .between ∨ q = .word) : Clear w q (dropBlanks s) := by
  induction s with
  | nil => exact h
  | cons c s ih =>
    cases hc : isBlank c with
    | false =>
      rw [Json.dropBlanks, List.dropWhile_cons, hc]
      exact h
    | true =>
      rw [Json.dropBlanks, List.dropWhile_cons, hc, if_pos rfl]
      refine ih ?_
      -- behind a blank one is between tokens, which is more than to be in a word
      have hbetween : Clear w .between s := h.congr (by rw [Place.behind_cons, next_of_isBlank hc hq])
      rcases hq with rfl | rfl
      · exact hbetween
      · exact hbetween.word rfl

end

/-! ## Cuts -/

/-- The text ends in a number, be it complete or not. -/
def endsInNumber (s : List Char) : Bool := (Place.between.behind s).isNumber

/-- The cut between two texts falls inside a number. -/
def splitsNumber (s w : List Char) : Bool := endsInNumber s && w.head?.any isNumeric

theorem clear_iff {w s : List Char} : Clear w .between s ↔ splitsNumber s w = false := by
  unfold Clear splitsNumber endsInNumber
  cases w with
  | nil => simp
  | cons c w => cases (Place.between.behind s).isNumber <;> simp

end ImportAtlas.Json
