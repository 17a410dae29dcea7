-- SUMMARY: Arrays, objects and trees are read alike in a text and in every longer one.
import ImportAtlas.Proofs.Json.SteadyTokens
import ImportAtlas.Proofs.Json.Trees

/-! # Trees and longer texts

A reader of values starts between tokens and stops behind the value. If the value is a word or a number it
stops inside it, as far as places go, so what follows a value is read as if behind a word. -/

namespace ImportAtlas.Json.Reader

variable {α σ : Type} {w s r : List Char}

/-! ## Punctuation

What stands behind an item or an entry is taken together with a proof that the text gets shorter. Here it
is told again as a reader, with the same outcome. -/

/-- Whether something begins behind a comma, where a closing bracket must not follow. -/
def hasBegun (close : Char) (begins : Char → Bool) : Reader Bool := do
  match ← token with
  | none => refuse .endInValue
  | some c =>
    if c = close then refuse .trailingComma
    else if begins c then return true
    else refuse .keyNotText

/-- Whether there is more behind an item or an entry. -/
def hasMore (close : Char) (begins : Char → Bool) (cut other : Cause) : Reader Bool := do
  match ← token with
  | none => refuse cut
  | some c =>
    if c = close then return false
    else if c = ',' then do
      advance
      hasBegun close begins
    else refuse other

/-- What stands behind an item or an entry, without lengths. -/
def Step.outcome : Except Problem (Step s) → Except Category (Bool × List Char)
  | .error p => .error p.category
  | .ok (.stop r _) => .ok (false, r)
  | .ok (.more r _) => .ok (true, r)

theorem outcome_afterItem (s : List Char) :
    Step.outcome (afterItem s) =
      outcome (hasMore ']' (fun _ => true) .endInArray .expectedItemOrEnd) s := by
  unfold afterItem
  split
  next hs => rw [hasMore, outcome_token_bind hs]; rfl
  next hs => rw [hasMore, outcome_token_bind hs]; rfl
  next r hs =>
    rw [hasMore, outcome_token_bind hs]
    change _ = outcome (do advance; hasBegun ']' fun _ => true) (',' :: r)
    rw [outcome_advance_bind, List.tail_cons, hasBegun]
    split
    next hr => rw [outcome_token_bind hr]; rfl
    next hr => rw [outcome_token_bind hr]; rfl
    next c r' hc hr =>
      rw [outcome_token_bind hr, List.head?_cons]
      simp only [if_neg hc]
      rfl
  next hnil hclose hcomma =>
    cases hs : dropBlanks s with
    | nil => exact absurd hs hnil
    | cons c r =>
      have hc : c ≠ ']' := by
        rintro rfl
        exact hclose r hs
      have hc' : c ≠ ',' := by
        rintro rfl
        exact hcomma r hs
      rw [hasMore, outcome_token_bind hs, List.head?_cons]
      simp only [if_neg hc, if_neg hc']
      rfl

theorem outcome_afterEntry (s : List Char) :
    Step.outcome (afterEntry s) = outcome (hasMore '}' (· == '"') .endInObject .expectedEntryOrEnd) s := by
  unfold afterEntry
  split
  next hs => rw [hasMore, outcome_token_bind hs]; rfl
  next hs => rw [hasMore, outcome_token_bind hs]; rfl
  next r hs =>
    rw [hasMore, outcome_token_bind hs]
    change _ = outcome (do advance; hasBegun '}' (· == '"')) (',' :: r)
    rw [outcome_advance_bind, List.tail_cons, hasBegun]
    split
    next hr => rw [outcome_token_bind hr]; rfl
    next hr => rw [outcome_token_bind hr]; rfl
    next hr => rw [outcome_token_bind hr]; rfl
    next hnil hclose hquote =>
      cases hr : dropBlanks r with
      | nil => exact absurd hr hnil
      | cons c r' =>
        have hc : c ≠ '}' := by
          rintro rfl
          exact hclose r' hr
        have hc' : (c == '"') = false := by
          refine beq_false_of_ne ?_
          rintro rfl
          exact hquote r' hr
        rw [outcome_token_bind hr, List.head?_cons]
        simp only [if_neg hc, hc']
        rfl
  next hnil hclose hcomma =>
    cases hs : dropBlanks s with
    | nil => exact absurd hs hnil
    | cons c r =>
      have hc : c ≠ '}' := by
        rintro rfl
        exact hclose r hs
      have hc' : c ≠ ',' := by
        rintro rfl
        exact hcomma r hs
      rw [hasMore, outcome_token_bind hs, List.head?_cons]
      simp only [if_neg hc, if_neg hc']
      rfl

theorem next_of_isMark {q : Place} {c : Char} (hc : isMark c = true) (hq : q = .between ∨ q = .word) :
    q.next c = .between := by
  simp only [isMark, List.contains_eq_mem, List.mem_cons, List.not_mem_nil, or_false, decide_eq_true_eq] at hc
  rcases hq with rfl | rfl
  · rcases hc with rfl | rfl | rfl | rfl | rfl | rfl <;> rfl
  · rcases hc with rfl | rfl | rfl | rfl | rfl | rfl <;> rfl

theorem steady_hasBegun {close : Char} {begins : Char → Bool} (h : Clear w .between s) :
    Steady w .between (hasBegun close begins) s := by
  refine .token_bind (.inl rfl) h rfl fun c r _ hclear => ?_
  dsimp only
  split
  next => exact .refuse _
  next =>
    split
    next => exact .pure hclear true
    next => exact .refuse _

theorem steady_hasMore {close : Char} {begins : Char → Bool} {cut other : Cause}
    (hclose : isMark close = true) (hcut : cut.category = .cutOff) (h : Clear w .word s) :
    Steady w .between (hasMore close begins cut other) s := by
  refine .token_bind (.inr rfl) h (congrArg _ hcut) fun c r _ hclear => ?_
  dsimp only
  split
  next hc =>
    -- a bracket that closes stands between tokens, whatever the place before it
    refine .pure (hclear.congr ?_) false
    rw [hc, Place.behind_cons, Place.behind_cons, next_of_isMark hclose (.inl rfl),
      next_of_isMark hclose (.inr rfl)]
  next =>
    split
    next hc =>
      subst hc
      exact .advance_bind hclear fun hrest => steady_hasBegun hrest
    next => exact .refuse _

theorem hasBegun_cases {close : Char} {begins : Char → Bool} {more : Bool}
    (h : Yields (hasBegun close begins) s more r) : more = true ∧ ∃ c r', r = c :: r' ∧ begins c = true := by
  rw [hasBegun, yields_token_bind] at h
  cases hs : dropBlanks s with
  | nil =>
    rw [hs] at h
    exact absurd h not_yields_refuse
  | cons c r' =>
    rw [hs, List.head?_cons] at h
    dsimp only at h
    split at h
    next => exact absurd h not_yields_refuse
    next =>
      split at h
      next hc =>
        obtain ⟨rfl, rfl⟩ := yields_pure.1 h
        exact ⟨rfl, c, r', rfl, hc⟩
      next => exact absurd h not_yields_refuse

/-- Behind an item or an entry there is the end, or a comma that leaves a shorter text. -/
theorem hasMore_cases {close : Char} {begins : Char → Bool} {cut other : Cause} {more : Bool}
    (h : Yields (hasMore close begins cut other) s more r) :
    (more = false ∧ ∃ r', r = close :: r') ∨
      more = true ∧ r.length < s.length ∧ ∃ c r', r = c :: r' ∧ begins c = true := by
  rw [hasMore, yields_token_bind] at h
  cases hs : dropBlanks s with
  | nil =>
    rw [hs] at h
    exact absurd h not_yields_refuse
  | cons c s' =>
    rw [hs, List.head?_cons] at h
    dsimp only at h
    split at h
    next hc =>
      obtain ⟨rfl, rfl⟩ := yields_pure.1 h
      exact .inl ⟨rfl, s', by rw [hc]⟩
    next =>
      split at h
      next =>
        obtain ⟨u, s₁, hadvance, hbegun⟩ := yields_bind.1 h
        obtain rfl := yields_advance.1 hadvance
        obtain ⟨hmore, hbegins⟩ := hasBegun_cases hbegun
        exact .inr ⟨hmore, Nat.lt_of_le_of_lt hbegun.length_le (length_lt_of_dropBlanks hs), hbegins⟩
      next => exact absurd h not_yields_refuse

theorem steady_hasNextItem (h : Clear w .word s) : Steady w .between hasNextItem s := by
  have hnext (s : List Char) : outcome hasNextItem s =
      outcome (hasMore ']' (fun _ => true) .endInArray .expectedItemOrEnd) s := by
    rw [← outcome_afterItem]
    unfold outcome result hasNextItem
    cases afterItem s with
    | error p => rfl
    | ok step => cases step <;> rfl
  exact (steady_hasMore rfl rfl h).congr (hnext s) (hnext (s ++ w))

theorem steady_hasFirstItem (h : Clear w .between s) : Steady w .between hasFirstItem s := by
  refine .token_bind (.inl rfl) h rfl fun c r _ hclear => ?_
  split
  next hc => contradiction
  next => exact .pure hclear false
  next => exact .pure hclear true

theorem steady_hasFirstEntry (h : Clear w .between s) : Steady w .between hasFirstEntry s := by
  refine .token_bind (.inl rfl) h rfl fun c r _ hclear => ?_
  split
  next hc => contradiction
  next => exact .pure hclear false
  next => exact .pure hclear true
  next => exact .refuse _

theorem steady_closeArray (h : Clear w .word s) : Steady w .between closeArray s := by
  refine .token_bind (.inr rfl) h rfl fun c r _ hclear => ?_
  split
  next hc => contradiction
  next hc =>
    cases hc
    exact .advance hclear
  next => exact .refuse _

theorem steady_closeObject (h : Clear w .word s) : Steady w .between closeObject s := by
  refine .token_bind (.inr rfl) h rfl fun c r _ hclear => ?_
  split
  next hc => contradiction
  next hc =>
    cases hc
    exact .advance hclear
  next => exact .refuse _
  next => exact .refuse _

/-! ## Arrays and objects -/

/-- A reader of values that does with longer texts what it does with their beginnings. -/
structure SteadyValue (w : List Char) (x : Reader α) : Prop where
  /-- without text there is no value -/
  nil : outcome x [] = .error .cutOff
  steady {s : List Char} (h : Clear w .between s) : Steady w .word x s

/-- A reader that looks at what stands behind an item or an entry and goes on. -/
theorem outcome_of_step {x : Reader α} {more : Reader Bool} {f : Bool → Reader α}
    {step : Except Problem (Step s)} (hstep : Step.outcome step = outcome more s)
    (herror : ∀ p, step = .error p → x s = .error p)
    (hstop : ∀ r h, step = .ok (.stop r h) → outcome x s = outcome (f false) r)
    (hmore : ∀ r h, step = .ok (.more r h) → outcome x s = outcome (f true) r) :
    outcome x s = outcome (more >>= f) s := by
  cases step with
  | error p => rw [outcome_bind_of_error hstep.symm, outcome_of_error (herror p rfl)]
  | ok step =>
    cases step with
    | stop r h => rw [outcome_bind_of_ok hstep.symm, hstop r h rfl]
    | more r h => rw [outcome_bind_of_ok hstep.symm, hmore r h rfl]

theorem outcome_moreItems (item : Reader α) (s : List Char) :
    outcome (moreItems item) s = outcome (do
      if ← hasMore ']' (fun _ => true) .endInArray .expectedItemOrEnd then
        let a ← item
        let as ← moreItems item
        return a :: as
      else return []) s := by
  refine outcome_of_step (outcome_afterItem s) (fun p hp => ?_) (fun r h hstop => ?_) fun r h hmore => ?_
  · rw [moreItems, hp]
  · have hitems : moreItems item s = .ok ⟨[], r, h⟩ := by rw [moreItems, hstop]
    exact outcome_of_ok hitems
  · simp only [outcome, result, reduceIte, bind_apply, bind_apply_fun, pure_apply, Reader.bind, Reader.pure]
    rw [moreItems, hmore]
    simp only
    cases item r with
    | error p => rfl
    | ok t =>
      obtain ⟨a, r₁, h₁⟩ := t
      simp only
      cases moreItems item r₁ <;> rfl

theorem steady_moreItems {item : Reader α} (hitem : SteadyValue w item) (h : Clear w .word s) :
    Steady w .word (moreItems item) s := by
  induction hn : s.length using Nat.strongRecOn generalizing s with
  | ind n ih =>
    refine Steady.congr ?_ (outcome_moreItems item s) (outcome_moreItems item (s ++ w))
    refine (steady_hasMore rfl rfl h).bind fun more r hmore hclear => ?_
    rcases hasMore_cases hmore with ⟨rfl, -⟩ | ⟨rfl, hlt, -⟩
    · exact .pure (hclear.word rfl) []
    · refine (hitem.steady hclear).bind fun a r₁ ha hclear₁ => ?_
      have hle : r₁.length ≤ r.length := ha.length_le
      exact (ih r₁.length (by omega) hclear₁ rfl).bind fun as r₂ _ hclear₂ => .pure hclear₂ (a :: as)

theorem steady_items {item : Reader α} (hitem : SteadyValue w item) (h : Clear w .between s) :
    Steady w .word (items item) s := by
  refine (steady_hasFirstItem h).bind fun first r _ hclear => ?_
  split
  next =>
    refine (hitem.steady hclear).bind fun a r₁ _ hclear₁ => ?_
    refine (steady_moreItems hitem hclear₁).bind fun as r₂ _ hclear₂ => ?_
    exact (steady_closeArray hclear₂).bind fun _ r₃ _ hclear₃ => .pure (hclear₃.word rfl) (a :: as)
  next =>
    refine (steady_closeArray (hclear.word rfl)).bind fun _ r₁ _ hclear₁ => ?_
    exact .pure (hclear₁.word rfl) []

theorem outcome_moreEntries (entry : σ → Reader σ) (st : σ) (s : List Char) :
    outcome (moreEntries entry st) s = outcome (do
      if ← hasMore '}' (· == '"') .endInObject .expectedEntryOrEnd then
        let st ← entry st
        moreEntries entry st
      else return st) s := by
  refine outcome_of_step (outcome_afterEntry s) (fun p hp => ?_) (fun r h hstop => ?_) fun r h hmore => ?_
  · rw [moreEntries, hp]
  · have hentries : moreEntries entry st s = .ok ⟨st, r, h⟩ := by rw [moreEntries, hstop]
    exact outcome_of_ok hentries
  · rw [if_pos rfl]
    cases hentry : entry st r with
    | error p =>
      have hentries : moreEntries entry st s = .error p := by
        rw [moreEntries, hmore]
        simp only [hentry]
      exact (outcome_of_error hentries).trans (outcome_bind_of_error (outcome_of_error hentry)).symm
    | ok t =>
      refine Eq.trans ?_ (outcome_bind_of_ok (outcome_of_ok hentry)).symm
      simp only [outcome, result]
      rw [moreEntries, hmore]
      simp only [hentry]
      cases moreEntries entry t.value t.rest <;> rfl

/-- The quote that begins an entry. -/
theorem quote_of_hasFirstEntry (h : Yields hasFirstEntry s true r) : ∃ r', r = '"' :: r' := by
  obtain ⟨r', hr, -⟩ := yields_hasFirstEntry.1 h
  exact ⟨r', hr⟩

/-- A reader of entries that does with longer texts what it does with their beginnings. -/
def SteadyEntry (w : List Char) (entry : σ → Reader σ) : Prop :=
  ∀ st r, Clear w .between ('"' :: r) → Steady w .word (entry st) ('"' :: r)

theorem steady_moreEntries {entry : σ → Reader σ} (hentry : SteadyEntry w entry) (st : σ)
    (h : Clear w .word s) : Steady w .word (moreEntries entry st) s := by
  induction hn : s.length using Nat.strongRecOn generalizing s st with
  | ind n ih =>
    refine Steady.congr ?_ (outcome_moreEntries entry st s) (outcome_moreEntries entry st (s ++ w))
    refine (steady_hasMore rfl rfl h).bind fun more r hmore hclear => ?_
    rcases hasMore_cases hmore with ⟨rfl, -⟩ | ⟨rfl, hlt, c, r', rfl, hc⟩
    · exact .pure (hclear.word rfl) st
    · obtain rfl : c = '"' := eq_of_beq hc
      refine (hentry st r' hclear).bind fun st₁ r₁ hst₁ hclear₁ => ?_
      have hle : r₁.length ≤ ('"' :: r').length := hst₁.length_le
      exact ih r₁.length (by omega) st₁ hclear₁ rfl

theorem steady_entries {entry : σ → Reader σ} (hentry : SteadyEntry w entry) (st : σ)
    (h : Clear w .between s) : Steady w .word (entries entry st) s := by
  refine (steady_hasFirstEntry h).bind fun first r hfirst hclear => ?_
  split
  next htrue =>
    subst htrue
    obtain ⟨r', rfl⟩ := quote_of_hasFirstEntry hfirst
    exact (hentry st r' hclear).bind fun st₁ r₁ _ hclear₁ => steady_moreEntries hentry st₁ hclear₁
  next => exact .pure (hclear.word rfl) st

theorem steady_key (h : Clear w .between ('"' :: s)) : Steady w .word key ('"' :: s) := by
  refine .advance_bind h fun hrest => ?_
  exact (steady_textBody hrest).word rfl

/-! ## Trees -/

section
variable {m : Mode}

/-- The inside of an array. -/
def arrayTree (m : Mode) : Reader Tree := do
  if ← hasFirstItem then
    let x ← tree m
    let xs ← treeItems m
    return .array (x :: xs)
  else
    advance
    return .array []

/-- The inside of an object. -/
def objectTree (m : Mode) : Reader Tree := do
  if ← hasFirstEntry then
    let k ← treeKey m
    let x ← tree m
    let es ← treeEntries m
    return .object ((k, x) :: es)
  else
    advance
    return .object []

/-- A value whose first character is known. -/
def treeFrom (m : Mode) (c : Char) : Reader Tree :=
  if c = 'n' then do
    advance
    word ['u', 'l', 'l']
    return .null
  else if c = 't' then do
    advance
    word ['r', 'u', 'e']
    return .bool true
  else if c = 'f' then do
    advance
    word ['a', 'l', 's', 'e']
    return .bool false
  else if c = '-' ∨ isDigit c then .number <$> m.number
  else if c = '"' then do
    advance
    .string <$> m.string
  else if c = '[' then enter (m.inner?.map arrayTree)
  else if c = '{' then enter (m.inner?.map objectTree)
  else refuse .expectedValue

theorem outcome_tree_of_nil (hs : dropBlanks s = []) : outcome (tree m) s = .error .cutOff := by
  have htree : tree m s = .error (.withNext .endInValue []) := by
    rw [tree]
    split
    next => rfl
    next hs' => cases hs.symm.trans hs'
  exact outcome_of_error htree

theorem outcome_tree_array (hs : dropBlanks s = '[' :: r) :
    outcome (tree m) s = outcome (enter (m.inner?.map arrayTree)) ('[' :: r) := by
  change result (tree m s) = _
  rw [tree]
  split
  next hs' => cases hs.symm.trans hs'
  next hs' =>
    cases hs.symm.trans hs'
    rw [if_neg (by decide), if_neg (by decide), if_neg (by decide), if_neg (by decide), if_neg (by decide),
      if_pos rfl]
    cases m.inner? with
    | none => rfl
    | some m =>
      refine Eq.trans ?_ (outcome_advance_bind (fun _ => arrayTree m) ('[' :: r)).symm
      change _ = outcome (arrayTree m) r
      refine eq_outcome_bind (fun p hp => ?_) fun first r₁ _ hfirst => ?_
      · simp only [hp]
        rfl
      simp only [hfirst]
      cases first with
      | false => rfl
      | true =>
        refine eq_outcome_bind (fun p hp => ?_) fun x r₂ _ hx => ?_
        · simp only [hp]
          rfl
        simp only [hx]
        refine eq_outcome_bind (fun p hp => ?_) fun xs r₃ _ hxs => ?_
        · simp only [hp]
          rfl
        simp only [hxs]
        rfl

theorem outcome_tree_object (hs : dropBlanks s = '{' :: r) :
    outcome (tree m) s = outcome (enter (m.inner?.map objectTree)) ('{' :: r) := by
  change result (tree m s) = _
  rw [tree]
  split
  next hs' => cases hs.symm.trans hs'
  next hs' =>
    cases hs.symm.trans hs'
    rw [if_neg (by decide), if_neg (by decide), if_neg (by decide), if_neg (by decide), if_neg (by decide),
      if_neg (by decide), if_pos rfl]
    cases m.inner? with
    | none => rfl
    | some m =>
      refine Eq.trans ?_ (outcome_advance_bind (fun _ => objectTree m) ('{' :: r)).symm
      change _ = outcome (objectTree m) r
      refine eq_outcome_bind (fun p hp => ?_) fun first r₁ _ hfirst => ?_
      · simp only [hp]
        rfl
      simp only [hfirst]
      cases first with
      | false => rfl
      | true =>
        refine eq_outcome_bind (fun p hp => ?_) fun k r₂ _ hk => ?_
        · simp only [hp]
          rfl
        simp only [hk]
        refine eq_outcome_bind (fun p hp => ?_) fun x r₃ _ hx => ?_
        · simp only [hp]
          rfl
        simp only [hx]
        refine eq_outcome_bind (fun p hp => ?_) fun es r₄ _ hes => ?_
        · simp only [hp]
          rfl
        simp only [hes]
        rfl

theorem outcome_tree_of_cons {c : Char} (hs : dropBlanks s = c :: r) :
    outcome (tree m) s = outcome (treeFrom m c) (c :: r) := by
  by_cases hopen : c = '['
  · subst hopen
    exact outcome_tree_array hs
  by_cases hopen' : c = '{'
  · subst hopen'
    exact outcome_tree_object hs
  change result (tree m s) = _
  rw [tree]
  split
  next hs' => cases hs.symm.trans hs'
  next hs' =>
    cases hs.symm.trans hs'
    unfold treeFrom
    by_cases hc : c = 'n'
    · rw [if_pos hc, if_pos hc]
      simp only [outcome, bind_apply, pure_apply, Reader.bind, Reader.pure, advance, List.tail_cons]
      cases word ['u', 'l', 'l'] r <;> rfl
    rw [if_neg hc, if_neg hc]
    by_cases hc : c = 't'
    · rw [if_pos hc, if_pos hc]
      simp only [outcome, bind_apply, pure_apply, Reader.bind, Reader.pure, advance, List.tail_cons]
      cases word ['r', 'u', 'e'] r <;> rfl
    rw [if_neg hc, if_neg hc]
    by_cases hc : c = 'f'
    · rw [if_pos hc, if_pos hc]
      simp only [outcome, bind_apply, pure_apply, Reader.bind, Reader.pure, advance, List.tail_cons]
      cases word ['a', 'l', 's', 'e'] r <;> rfl
    rw [if_neg hc, if_neg hc]
    by_cases hc : c = '-' ∨ isDigit c = true
    · rw [if_pos hc, if_pos hc, outcome_map, outcome]
      cases m.number (c :: r) <;> rfl
    rw [if_neg hc, if_neg hc]
    by_cases hc : c = '"'
    · rw [if_pos hc, if_pos hc, outcome_advance_bind, outcome_map, outcome, List.tail_cons]
      cases m.string r <;> rfl
    rw [if_neg hc, if_neg hc, if_neg hopen, if_neg hopen, if_neg hopen', if_neg hopen']
    rfl

theorem outcome_treeItems (m : Mode) (s : List Char) :
    outcome (treeItems m) s = outcome (do
      if ← hasMore ']' (fun _ => true) .endInArray .expectedItemOrEnd then
        let x ← tree m
        let xs ← treeItems m
        return x :: xs
      else
        advance
        return []) s := by
  refine outcome_of_step (outcome_afterItem s) (fun p hp => ?_) (fun r h hstop => ?_) fun r h hmore => ?_
  · rw [treeItems, hp]
  · have hitems : treeItems m s = .ok ⟨[], r.tail, length_tail_le_of_le h⟩ := by rw [treeItems, hstop]
    exact outcome_of_ok hitems
  · change result (treeItems m s) = _
    rw [treeItems, hmore, if_pos rfl]
    refine eq_outcome_bind (fun p hp => ?_) fun x r₁ _ hx => ?_
    · simp only [hp]
      rfl
    simp only [hx]
    refine eq_outcome_bind (fun p hp => ?_) fun xs r₂ _ hxs => ?_
    · simp only [hp]
      rfl
    simp only [hxs]
    rfl

theorem outcome_treeEntries (m : Mode) (s : List Char) :
    outcome (treeEntries m) s = outcome (do
      if ← hasMore '}' (· == '"') .endInObject .expectedEntryOrEnd then
        let k ← treeKey m
        let x ← tree m
        let es ← treeEntries m
        return (k, x) :: es
      else
        advance
        return []) s := by
  refine outcome_of_step (outcome_afterEntry s) (fun p hp => ?_) (fun r h hstop => ?_) fun r h hmore => ?_
  · rw [treeEntries, hp]
  · have hentries : treeEntries m s = .ok ⟨[], r.tail, length_tail_le_of_le h⟩ := by
      rw [treeEntries, hstop]
    exact outcome_of_ok hentries
  · change result (treeEntries m s) = _
    rw [treeEntries, hmore, if_pos rfl]
    refine eq_outcome_bind (fun p hp => ?_) fun k r₁ _ hk => ?_
    · simp only [hp]
      rfl
    simp only [hk]
    refine eq_outcome_bind (fun p hp => ?_) fun x r₂ _ hx => ?_
    · simp only [hp]
      rfl
    simp only [hx]
    refine eq_outcome_bind (fun p hp => ?_) fun es r₃ _ hes => ?_
    · simp only [hp]
      rfl
    simp only [hes]
    rfl

theorem steady_modeNumber (m : Mode) {c : Char} (hc : c = '-' ∨ isDigit c = true)
    (h : Clear w .between (c :: s)) : Steady w .word m.number (c :: s) := by
  cases m with
  | lenient => exact steady_numeral (.inr rfl) hc h
  | strict room => exact steady_number hc h

theorem steady_modeString (m : Mode) (h : Clear w .string s) : Steady w .between m.string s := by
  cases m with
  | lenient => exact steady_pieces h
  | strict room => exact (steady_textBody h).bind fun t r _ hclear => .pure hclear _

theorem steady_treeKey (m : Mode) (h : Clear w .between ('"' :: s)) :
    Steady w .between (treeKey m) ('"' :: s) := by
  refine .advance_bind h fun hrest => ?_
  refine (steady_modeString m hrest).bind fun k r₁ _ hclear₁ => ?_
  exact (steady_colon (hclear₁.word rfl)).bind fun _ r₂ _ hclear₂ => .pure hclear₂ k

/-- The three readers of trees on one text. -/
structure SteadyTrees (w s : List Char) : Prop where
  tree (m : Mode) (h : Clear w .between s) : Steady w .word (tree m) s
  items (m : Mode) (h : Clear w .word s) : Steady w .word (treeItems m) s
  entries (m : Mode) (h : Clear w .word s) : Steady w .word (treeEntries m) s

theorem steady_arrayTree (ih : ∀ r, r.length ≤ s.length → SteadyTrees w r) (m : Mode)
    (h : Clear w .between s) : Steady w .word (arrayTree m) s := by
  refine (steady_hasFirstItem h).bind fun first r hfirst hclear => ?_
  obtain ⟨c, r', rfl, -, hc⟩ := yields_hasFirstItem.1 hfirst
  cases first with
  | false =>
    obtain rfl := hc.1 rfl
    exact .advance_bind hclear fun hrest => .pure (hrest.word rfl) _
  | true =>
    have hle : (c :: r').length ≤ s.length := hfirst.length_le
    refine ((ih (c :: r') hle).tree m hclear).bind fun x r₁ hx hclear₁ => ?_
    have hle₁ : r₁.length ≤ s.length := Nat.le_trans hx.length_le hle
    exact ((ih r₁ hle₁).items m hclear₁).bind fun xs r₂ _ hclear₂ => .pure hclear₂ _

theorem steady_objectTree (ih : ∀ r, r.length ≤ s.length → SteadyTrees w r) (m : Mode)
    (h : Clear w .between s) : Steady w .word (objectTree m) s := by
  refine (steady_hasFirstEntry h).bind fun first r hfirst hclear => ?_
  have hle : r.length ≤ s.length := hfirst.length_le
  obtain ⟨r', rfl, -⟩ := yields_hasFirstEntry.1 hfirst
  cases first with
  | false => exact .advance_bind hclear fun hrest => .pure (hrest.word rfl) _
  | true =>
    refine (steady_treeKey m hclear).bind fun k r₁ hk hclear₁ => ?_
    have hle₁ : r₁.length ≤ s.length := Nat.le_trans hk.length_le hle
    refine ((ih r₁ hle₁).tree m hclear₁).bind fun x r₂ hx hclear₂ => ?_
    have hle₂ : r₂.length ≤ s.length := Nat.le_trans hx.length_le hle₁
    exact ((ih r₂ hle₂).entries m hclear₂).bind fun es r₃ _ hclear₃ => .pure hclear₃ _

theorem steady_enter {inside : Option (Reader α)} {c : Char} (hc : isMark c = true)
    (hinside : ∀ x ∈ inside, Clear w .between s → Steady w .word x s) (h : Clear w .between (c :: s)) :
    Steady w .word (enter inside) (c :: s) := by
  cases inside with
  | none => exact .refuse _
  | some x =>
    refine .advance_bind h fun hrest => hinside x rfl ?_
    rwa [next_of_isMark hc (.inl rfl)] at hrest

theorem steady_treeFrom {c : Char} (ih : ∀ r, r.length ≤ s.length → SteadyTrees w r) (m : Mode)
    (h : Clear w .between (c :: s)) : Steady w .word (treeFrom m c) (c :: s) := by
  unfold treeFrom
  split
  next hc =>
    subst hc
    exact .advance_bind h fun hrest => (steady_word rfl hrest).bind fun _ _ _ hclear => .pure hclear _
  split
  next hc =>
    subst hc
    exact .advance_bind h fun hrest => (steady_word rfl hrest).bind fun _ _ _ hclear => .pure hclear _
  split
  next hc =>
    subst hc
    exact .advance_bind h fun hrest => (steady_word rfl hrest).bind fun _ _ _ hclear => .pure hclear _
  split
  next hc => exact (steady_modeNumber m hc h).map _
  split
  next hc =>
    subst hc
    exact .advance_bind h fun hrest => ((steady_modeString m hrest).map _).word rfl
  split
  next hc =>
    subst hc
    refine steady_enter rfl (fun x hx hrest => ?_) h
    obtain ⟨m', -, rfl⟩ := Option.map_eq_some_iff.1 hx
    exact steady_arrayTree ih m' hrest
  split
  next hc =>
    subst hc
    refine steady_enter rfl (fun x hx hrest => ?_) h
    obtain ⟨m', -, rfl⟩ := Option.map_eq_some_iff.1 hx
    exact steady_objectTree ih m' hrest
  next => exact .refuse _

theorem steady_treeItems (ih : ∀ r, r.length < s.length → SteadyTrees w r) (m : Mode)
    (h : Clear w .word s) : Steady w .word (treeItems m) s := by
  refine Steady.congr ?_ (outcome_treeItems m s) (outcome_treeItems m (s ++ w))
  refine (steady_hasMore rfl rfl h).bind fun more r hmore hclear => ?_
  rcases hasMore_cases hmore with ⟨rfl, r', rfl⟩ | ⟨rfl, hlt, -⟩
  · exact .advance_bind hclear fun hrest => .pure (hrest.word rfl) []
  · refine ((ih r hlt).tree m hclear).bind fun x r₁ hx hclear₁ => ?_
    have hlt₁ : r₁.length < s.length := Nat.lt_of_le_of_lt hx.length_le hlt
    exact ((ih r₁ hlt₁).items m hclear₁).bind fun xs r₂ _ hclear₂ => .pure hclear₂ (x :: xs)

theorem steady_treeEntries (ih : ∀ r, r.length < s.length → SteadyTrees w r) (m : Mode)
    (h : Clear w .word s) : Steady w .word (treeEntries m) s := by
  refine Steady.congr ?_ (outcome_treeEntries m s) (outcome_treeEntries m (s ++ w))
  refine (steady_hasMore rfl rfl h).bind fun more r hmore hclear => ?_
  rcases hasMore_cases hmore with ⟨rfl, r', rfl⟩ | ⟨rfl, hlt, c, r', rfl, hc⟩
  · exact .advance_bind hclear fun hrest => .pure (hrest.word rfl) []
  · obtain rfl : c = '"' := eq_of_beq hc
    refine (steady_treeKey m hclear).bind fun k r₁ hk hclear₁ => ?_
    have hlt₁ : r₁.length < s.length := Nat.lt_of_le_of_lt hk.length_le hlt
    refine ((ih r₁ hlt₁).tree m hclear₁).bind fun x r₂ hx hclear₂ => ?_
    have hlt₂ : r₂.length < s.length := Nat.lt_of_le_of_lt hx.length_le hlt₁
    exact ((ih r₂ hlt₂).entries m hclear₂).bind fun es r₃ _ hclear₃ => .pure hclear₃ ((k, x) :: es)

/-- By induction on the length of the text: behind a bracket or a comma it is shorter. -/
theorem steadyTrees (w s : List Char) : SteadyTrees w s := by
  induction hn : s.length using Nat.strongRecOn generalizing s with
  | ind n ih =>
    have ih (r : List Char) (hr : r.length < s.length) : SteadyTrees w r := ih r.length (by omega) r rfl
    refine ⟨fun m h => ?_, steady_treeItems ih, steady_treeEntries ih⟩
    cases hs : dropBlanks s with
    | nil => exact .cutOff (outcome_tree_of_nil hs)
    | cons c r =>
      have hlt : r.length < s.length := length_lt_of_dropBlanks hs
      have hclear : Clear w .between (c :: r) := hs ▸ h.dropBlanks (.inl rfl)
      have hlonger : dropBlanks (s ++ w) = c :: (r ++ w) := dropBlanks_append_of_cons hs
      refine (steady_treeFrom (fun r' hr' => ih r' (by omega)) m hclear).congr ?_ ?_
      · exact outcome_tree_of_cons hs
      · exact outcome_tree_of_cons hlonger

theorem steadyValue_tree (m : Mode) : SteadyValue w (tree m) :=
  ⟨outcome_tree_of_nil rfl, fun {s} h => (steadyTrees w s).tree m h⟩

theorem steadyValue_skip : SteadyValue w skip := by
  refine ⟨outcome_bind_of_error (steadyValue_tree (w := w) .lenient).nil, fun {s} h => ?_⟩
  exact ((steadyValue_tree .lenient).steady h).bind fun _ _ _ hclear => .pure hclear ()

end

end ImportAtlas.Json.Reader
