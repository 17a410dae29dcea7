-- SUMMARY: Readers that do with a longer text what they do with its beginning, unless it is cut off.
import ImportAtlas.Proofs.Json.Places

/-! # Readers and longer texts

A reader that has all it needs in a text does the same with every longer text. It takes the same value and
leaves a longer rest, or it fails in the same way; only a failure for want of text may go away. The one
exception is a text that is cut inside a number.

`Steady w q x s` says this of the reader `x`, the text `s` and a text `w` behind it. It has one rule for
each way of putting readers together. What a reader reports about the place of a problem plays no part in
it, so the rules speak of the `outcome` of a reader, in which only the category of a problem is left. -/

namespace ImportAtlas.Json.Reader

variable {α β : Type} {w s r : List Char} {q q' : Place}

/-! ## Outcomes -/

/-- A result without the lengths and without the place of a problem. -/
def result : Except Problem (Taken α s) → Except Category (α × List Char)
  | .error p => .error p.category
  | .ok t => .ok (t.value, t.rest)

/-- What comes of a text: a value and the rest, or the category of the problem. -/
def outcome (x : Reader α) (s : List Char) : Except Category (α × List Char) := result (x s)

theorem outcome_of_error {x : Reader α} {p : Problem} (h : x s = .error p) :
    outcome x s = .error p.category := by
  simp only [outcome, result, h]

theorem outcome_of_ok {x : Reader α} {t : Taken α s} (h : x s = .ok t) :
    outcome x s = .ok (t.value, t.rest) := by
  simp only [outcome, result, h]

theorem outcome_congr {x y : Reader α} (h : x s = y s) : outcome x s = outcome y s := by
  simp only [outcome, result, h]

theorem yields_iff {x : Reader α} {a : α} : Yields x s a r ↔ outcome x s = .ok (a, r) := by
  refine ⟨fun h => outcome_of_ok h.2, fun h => ?_⟩
  cases hx : x s with
  | error p =>
    rw [outcome_of_error hx] at h
    contradiction
  | ok t =>
    rw [outcome_of_ok hx] at h
    obtain ⟨rfl, rfl⟩ := Prod.mk.inj (Except.ok.inj h)
    exact ⟨t.rest_le, hx⟩

section
variable {x : Reader α} {f : α → Reader β}

theorem bind_apply (s : List Char) : (x >>= f) s = Reader.bind x f s := rfl

/-- As above, for a reader that is written as a function of the text. -/
theorem bind_apply_fun (x : (s : List Char) → Except Problem (Taken α s)) (f : α → Reader β)
    (s : List Char) : ((show Reader α from x) >>= f) s = Reader.bind x f s := rfl

theorem outcome_bind_of_ok {a : α} (h : outcome x s = .ok (a, r)) :
    outcome (x >>= f) s = outcome (f a) r := by
  obtain ⟨hr, hx⟩ := yields_iff.2 h
  simp only [outcome, result, bind_apply, Reader.bind, hx]
  cases f a r <;> rfl

theorem outcome_bind_of_error {c : Category} (h : outcome x s = .error c) :
    outcome (x >>= f) s = .error c := by
  cases hx : x s with
  | error p =>
    simp only [outcome, result, hx] at h
    simp only [outcome, result, bind_apply, Reader.bind, hx]
    rw [Except.error.inj h]
  | ok t =>
    simp only [outcome, result, hx] at h
    contradiction

/-- Whatever goes on from the result of a reader as `f` does is the outcome of both together. -/
theorem eq_outcome_bind {e : Except Category (β × List Char)} (herror : ∀ p, x s = .error p → e = .error p.category)
    (hok : ∀ a r h, x s = .ok ⟨a, r, h⟩ → e = outcome (f a) r) : e = outcome (x >>= f) s := by
  cases hx : x s with
  | error p => rw [outcome_bind_of_error (outcome_of_error hx), herror p hx]
  | ok t => rw [outcome_bind_of_ok (outcome_of_ok hx), hok t.value t.rest t.rest_le hx]

end

theorem outcome_map (f : α → β) (x : Reader α) (s : List Char) :
    outcome (f <$> x) s = (outcome x s).map (Prod.map f id) := by
  cases h : outcome x s with
  | error c => exact outcome_bind_of_error h
  | ok t => exact outcome_bind_of_ok h

theorem pure_apply (a : α) (s : List Char) : (pure a : Reader α) s = Reader.pure a s := rfl

theorem outcome_advance (s : List Char) : outcome advance s = .ok ((), s.tail) := rfl

theorem outcome_token (s : List Char) :
    outcome token s = .ok ((dropBlanks s).head?, dropBlanks s) := rfl

theorem outcome_token_bind {t : List Char} (hs : dropBlanks s = t) (f : Option Char → Reader β) :
    outcome (token >>= f) s = outcome (f t.head?) t := by
  subst hs
  exact outcome_bind_of_ok (outcome_token s)

theorem outcome_advance_bind (f : Unit → Reader β) (s : List Char) :
    outcome (advance >>= f) s = outcome (f ()) s.tail :=
  outcome_bind_of_ok (outcome_advance s)

/-- A text that is not all blank keeps its first token. -/
theorem dropBlanks_append_of_cons {c : Char} (hs : dropBlanks s = c :: r) :
    dropBlanks (s ++ w) = c :: (r ++ w) := by
  rw [dropBlanks, List.dropWhile_append, ← dropBlanks, hs]
  rfl

/-! ## The judgement -/

/-- What the reader `x` does with `s` it does with `s` and `w` behind it, unless it fails for want of
text. If it leaves a rest, it leaves it at the place `q`, and the rest does not end inside a number that
goes on in `w`. -/
def Steady (w : List Char) (q : Place) (x : Reader α) (s : List Char) : Prop :=
  match outcome x s with
  | .ok (a, r) => outcome x (s ++ w) = .ok (a, r ++ w) ∧ Clear w q r
  | .error c => c = .cutOff ∨ outcome x (s ++ w) = .error c

namespace Steady

theorem of_ok {x : Reader α} {a : α} (h : outcome x s = .ok (a, r))
    (hlonger : outcome x (s ++ w) = .ok (a, r ++ w)) (hclear : Clear w q r) : Steady w q x s := by
  rw [Steady, h]
  exact ⟨hlonger, hclear⟩

theorem of_error {x : Reader α} {c : Category} (h : outcome x s = .error c)
    (hlonger : outcome x (s ++ w) = .error c) : Steady w q x s := by
  rw [Steady, h]
  exact .inr hlonger

/-- A reader that fails for want of text. -/
theorem cutOff {x : Reader α} (h : outcome x s = .error .cutOff) : Steady w q x s := by
  rw [Steady, h]
  exact .inl rfl

/-- A reader that does with both texts what another one does, be it with a part of the texts. -/
theorem congr {x y : Reader α} {s' : List Char} (h : Steady w q y s') (hs : outcome x s = outcome y s')
    (hw : outcome x (s ++ w) = outcome y (s' ++ w)) : Steady w q x s := by
  rw [Steady, hs, hw]
  exact h

theorem of_eq {x y : Reader α} (h : Steady w q y s) (hs : x s = y s) (hw : x (s ++ w) = y (s ++ w)) :
    Steady w q x s :=
  h.congr (outcome_congr hs) (outcome_congr hw)

theorem bind {x : Reader α} {f : α → Reader β} (hx : Steady w q x s)
    (hf : ∀ a r, Yields x s a r → Clear w q r → Steady w q' (f a) r) : Steady w q' (x >>= f) s := by
  rw [Steady] at hx
  cases hs : outcome x s with
  | error c =>
    rw [hs] at hx
    rw [Steady, outcome_bind_of_error hs]
    exact hx.imp_right outcome_bind_of_error
  | ok t =>
    obtain ⟨a, r⟩ := t
    rw [hs] at hx
    obtain ⟨hlonger, hclear⟩ := hx
    have hrest := hf a r (yields_iff.2 hs) hclear
    rw [Steady, outcome_bind_of_ok hs, outcome_bind_of_ok hlonger]
    exact hrest

theorem pure (h : Clear w q s) (a : α) : Steady w q (pure a) s :=
  of_ok rfl rfl h

theorem map {x : Reader α} (h : Steady w q x s) (f : α → β) : Steady w q (f <$> x) s :=
  h.bind fun a _ _ hclear => .pure hclear (f a)

theorem fail (cause : Cause) : Steady w q (fail cause : Reader α) s := of_error rfl rfl

theorem refuse (cause : Cause) : Steady w q (refuse cause : Reader α) s := of_error rfl rfl

theorem advance {c : Char} (h : Clear w q (c :: s)) : Steady w (q.next c) advance (c :: s) :=
  of_ok rfl rfl h

theorem peek {c : Char} (h : Clear w q (c :: s)) : Steady w q peek (c :: s) := of_ok rfl rfl h

/-- Passing over a character and going on. -/
theorem advance_bind {c : Char} {f : Unit → Reader β} (h : Clear w q (c :: s))
    (hf : Clear w (q.next c) s → Steady w q' (f ()) s) : Steady w q' (Reader.advance >>= f) (c :: s) := by
  refine (advance h).bind fun _ r hyields hclear => ?_
  obtain rfl := yields_advance.1 hyields
  exact hf hclear

theorem token {c : Char} (hs : dropBlanks s = c :: r) (hq : q = .between ∨ q = .word)
    (h : Clear w q s) : Steady w q token s := by
  refine of_ok (outcome_token s) ?_ (h.dropBlanks hq)
  rw [outcome_token, dropBlanks_append_of_cons hs, hs]
  rfl

/-- Looking for the next character that is not blank and going on. Without one, the text has to be cut
off. -/
theorem token_bind {f : Option Char → Reader β} (hq : q = .between ∨ q = .word) (h : Clear w q s)
    (hnone : outcome (f none) [] = .error .cutOff)
    (hsome : ∀ c r, dropBlanks s = c :: r → Clear w q (c :: r) → Steady w q' (f (some c)) (c :: r)) :
    Steady w q' (Reader.token >>= f) s := by
  cases hs : dropBlanks s with
  | nil => exact cutOff ((outcome_token_bind hs f).trans hnone)
  | cons c r =>
    refine (Steady.token hs hq h).bind fun o r' hyields hclear => ?_
    obtain ⟨rfl, rfl⟩ := yields_token.1 hyields
    rw [hs] at hclear ⊢
    exact hsome c r hs hclear

/-- Behind a token one may think to be in a word. -/
theorem word {x : Reader α} (h : Steady w q x s) (hq : q.isQuoted = false) : Steady w .word x s := by
  rw [Steady] at h ⊢
  split at h
  next hs => exact ⟨h.1, h.2.word hq⟩
  next hs => exact h

end Steady

end ImportAtlas.Json.Reader
