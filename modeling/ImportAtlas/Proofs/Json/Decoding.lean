-- SUMMARY: Decoding trees: text, flags, lists, values that may be null, and the fields of a record.
import ImportAtlas.Proofs.Json.Grammar

/-! # Decoding trees

What a tree stands for when a value of a known kind is wanted. `room` counts the brackets that may still
be opened, as it does for the readers. A record is an object with named fields, of which the known ones
stand once at most, or an array of its fields in order; `fields?` gives both the same form. -/

namespace ImportAtlas.Json

variable {α : Type}

namespace Tree

def text? : Tree → Option String
  | .string ps => Piece.text? ps
  | _ => none

def flag? : Tree → Option Bool
  | .bool b => some b
  | _ => none

def unit? : Tree → Option Unit
  | .null => some ()
  | _ => none

def nullable? (d : Tree → Option α) : Tree → Option (Option α)
  | .null => some none
  | t => (d t).map some

/-- The values of an array, where `d` is told the room inside the bracket. -/
def list? (room : Nat) (d : Nat → Tree → Option α) : Tree → Option (List α)
  | .array xs =>
    match room with
    | 0 => none
    | room + 1 => xs.mapM (d room)
  | _ => none

/-- The entries of an object with their keys as text. -/
def named? (es : List (List Piece × Tree)) : Option (List (String × Tree)) :=
  es.mapM fun e => (Piece.text? e.1).map (·, e.2)

/-- The fields of a record. An array has no more items than there are names; an object has no name
twice, and entries with other keys are of no interest. -/
def fields? (names : List String) : Tree → Option (List (String × Tree))
  | .array xs => if xs.length ≤ names.length then some (names.zip xs) else none
  | .object es => do
    let fs ← named? es
    if ∀ name ∈ names, fs.countP (·.1 == name) ≤ 1 then some fs else none
  | _ => none

theorem eq_null_of_unit? {t : Tree} {u : Unit} (h : t.unit? = some u) : t = .null := by
  cases t with
  | null => rfl
  | bool | number | string | array | object => cases h

theorem of_nullable?_eq_some {d : Tree → Option α} {t : Tree} {a : α}
    (h : t.nullable? d = some (some a)) : d t = some a := by
  cases t with
  | null => cases h
  | bool | number | string | array | object =>
    obtain ⟨b, hb, he⟩ := Option.map_eq_some_iff.mp h
    cases he
    exact hb

end Tree

-- ---------------------------------------------------------------------------
-- Lists of values and of entries
-- ---------------------------------------------------------------------------

theorem mapM_cons_eq_some {β : Type} {d : α → Option β} {x : α} {xs : List α} {bs : List β} :
    (x :: xs).mapM d = some bs ↔ ∃ b bs', d x = some b ∧ xs.mapM d = some bs' ∧ bs = b :: bs' := by
  rw [List.mapM_cons]
  cases hx : d x with
  | none => simp
  | some b =>
    cases hxs : xs.mapM d with
    | none => simp
    | some bs' => simp [eq_comm]

theorem foldlM_cons_eq_some {β γ : Type} {step : β → γ → Option β} {st st' : β} {e : γ} {es : List γ} :
    (e :: es).foldlM step st = some st' ↔ ∃ st₁, step st e = some st₁ ∧ es.foldlM step st₁ = some st' :=
  Option.bind_eq_some_iff

theorem named?_cons_eq_some {k : List Piece} {x : Tree} {es : List (List Piece × Tree)}
    {fs : List (String × Tree)} : Tree.named? ((k, x) :: es) = some fs ↔
      ∃ name fs', Piece.text? k = some name ∧ Tree.named? es = some fs' ∧ fs = (name, x) :: fs' := by
  rw [Tree.named?, mapM_cons_eq_some]
  simp only [Option.map_eq_some_iff]
  constructor
  · rintro ⟨f, fs', ⟨name, hname, rfl⟩, hfs, rfl⟩
    exact ⟨name, fs', hname, hfs, rfl⟩
  · rintro ⟨name, fs', hname, hfs, rfl⟩
    exact ⟨(name, x), fs', ⟨name, hname, rfl⟩, hfs, rfl⟩

/-- What an entry does to its field: it fills it, unless the field was seen before. -/
def fill {β : Type} (seen : Option α) (d : Tree → Option α) (f : α → β) (x : Tree) : Option β :=
  match seen with
  | some _ => none
  | none => (d x).map f

theorem fields?_array_of_lt {names : List String} {ts : List Tree} (h : names.length < ts.length) :
    Tree.fields? names (.array ts) = none := by
  rw [Tree.fields?, if_neg (Nat.not_le.mpr h)]

theorem fields?_object_eq_some {names : List String} {es : List (List Piece × Tree)}
    {fs : List (String × Tree)} : Tree.fields? names (.object es) = some fs ↔
      Tree.named? es = some fs ∧ ∀ name ∈ names, fs.countP (·.1 == name) ≤ 1 := by
  rw [Tree.fields?]
  simp only [Option.bind_eq_bind, Option.bind_eq_some_iff, Option.ite_none_right_eq_some,
    Option.some.injEq]
  constructor
  · rintro ⟨fs', hfs, hcount, rfl⟩
    exact ⟨hfs, hcount⟩
  · rintro ⟨hfs, hcount⟩
    exact ⟨fs, hfs, hcount, rfl⟩

theorem fields?_object_of_nodup {names : List String} {es : List (List Piece × Tree)}
    {fs : List (String × Tree)} (hes : Tree.named? es = some fs) (h : (fs.map (·.1)).Nodup) :
    Tree.fields? names (.object es) = some fs := by
  refine fields?_object_eq_some.mpr ⟨hes, fun name _ => ?_⟩
  have hcount := List.nodup_iff_count.mp h name
  rwa [List.count, List.countP_map] at hcount

end ImportAtlas.Json
