-- SUMMARY: A payload with something behind it: accepted ones bear only blanks, and the first problem is final.
import ImportAtlas.Proofs.Json.SteadyValues
import ImportAtlas.Proofs.Payload.Reading

/-! # Payloads with something behind them

A payload is read from left to right, one character ahead, in every form a record can take. So a text that
is accepted bears nothing but blanks behind it, and a text that fails for another reason than its end fails
in the same way with anything behind it. -/

namespace ImportAtlas.Payload

open Json Json.Reader

variable {w s : List Char}

/-! ## Nodes -/

theorem steadyValue_variant : SteadyValue w variant := by
  refine ⟨rfl, fun {s} h => ((steadyValue_text _).steady h).bind fun label r _ hclear => ?_⟩
  split
  next k _ => exact .pure hclear k
  next => exact .fail _

theorem steady_variantKey (h : Clear w .between s) : Steady w .word variantKey s := by
  refine .token_bind (.inl rfl) h rfl fun c r _ hclear => ?_
  split
  next hc => contradiction
  next => exact steadyValue_variant.steady hclear
  next => exact .refuse _
  next => exact .refuse _

theorem steadyValue_kind (room : Nat) : SteadyValue w (kind room) := by
  refine ⟨rfl, fun {s} h => .token_bind (.inl rfl) h rfl fun c r _ hclear => ?_⟩
  split
  next hc => contradiction
  next hc =>
    cases hc
    refine steady_enter rfl (fun x hx hrest => ?_) hclear
    obtain ⟨-, rfl⟩ := mem_within hx
    refine (steady_variantKey hrest).bind fun k r₁ _ hclear₁ => ?_
    refine (steady_colon hclear₁).bind fun _ r₂ _ hclear₂ => ?_
    refine (steadyValue_null.steady hclear₂).bind fun _ r₃ _ hclear₃ => ?_
    refine .token_bind (.inr rfl) hclear₃ rfl fun c r₄ _ hclear₄ => ?_
    split
    next hc => contradiction
    next hc =>
      cases hc
      exact .advance_bind hclear₄ fun hclear₅ => .pure (hclear₅.word rfl) k
    next => exact .fail _
  next => exact steadyValue_variant.steady hclear
  next => exact .refuse _

theorem steadyValue_plainText : SteadyValue w plainText := steadyValue_text _

theorem steadyValue_members (room : Nat) : SteadyValue w (members room) :=
  steadyValue_list fun _ => steadyValue_plainText

theorem steady_nodeCells (room : Nat) (h : Clear w .between s) : Steady w .word (nodeCells room) s := by
  refine (steady_firstCell steadyValue_plainText h).bind fun _ _ _ h => ?_
  refine (steady_required _ h).bind fun _ _ _ h => ?_
  refine (steady_nextCell steadyValue_plainText h).bind fun _ _ _ h => ?_
  refine (steady_required _ h).bind fun _ _ _ h => ?_
  refine (steady_nextCell (steadyValue_kind room) h).bind fun _ _ _ h => ?_
  refine (steady_required _ h).bind fun _ _ _ h => ?_
  refine (steady_nextCell steadyValue_flag h).bind fun _ _ _ h => ?_
  refine (steady_nextCell steadyValue_flag h).bind fun _ _ _ h => ?_
  refine (steady_nextCell (steadyValue_nullable steadyValue_plainText) h).bind fun _ _ _ h => ?_
  exact (steady_nextCell (steadyValue_members room) h).bind fun _ _ _ h => .pure h _

theorem steadyEntry_nodeEntry (room : Nat) : SteadyEntry w (nodeEntry room) := by
  intro f r h
  refine (steady_key h).bind fun name r _ h => ?_
  split
  · exact steady_field steadyValue_plainText h
  · exact steady_field steadyValue_plainText h
  · exact steady_field (steadyValue_kind room) h
  · exact steady_field steadyValue_flag h
  · exact steady_field steadyValue_flag h
  · exact steady_field (steadyValue_nullable steadyValue_plainText) h
  · exact steady_field (steadyValue_members room) h
  · exact (steady_unknown h).bind fun _ _ _ h => .pure h f

theorem steady_nodeEntries (room : Nat) (h : Clear w .between s) : Steady w .word (nodeEntries room) s := by
  refine (steady_entries (steadyEntry_nodeEntry room) _ h).bind fun _ _ _ h => ?_
  refine (steady_present _ h).bind fun _ _ _ h => ?_
  refine (steady_present _ h).bind fun _ _ _ h => ?_
  exact (steady_present _ h).bind fun _ _ _ h => .pure h _

theorem steadyValue_node (room : Nat) : SteadyValue w (node room) := by
  refine steadyValue_record fun p hp s h => ?_
  cases room with
  | zero => contradiction
  | succ room =>
    obtain rfl := Option.some.inj hp
    exact ⟨steady_nodeCells room h, steady_nodeEntries room h⟩

/-! ## Links -/

theorem steadyValue_endpoint (room : Nat) : SteadyValue w (endpoint room) := by
  refine ⟨outcome_bind_of_error (outcome_tree_of_nil rfl), fun {s} h => ?_⟩
  refine ((steadyValue_tree (.strict room)).steady h).bind fun t r _ hclear => ?_
  split
  next id _ => exact .pure hclear id
  next => exact .fail _

section
variable {inner : Reader Link}

theorem steady_linkCells (room : Nat) (hinner : SteadyValue w inner) (h : Clear w .between s) :
    Steady w .word (linkCells room inner) s := by
  refine (steady_firstCell (steadyValue_endpoint room) h).bind fun _ _ _ h => ?_
  refine (steady_required _ h).bind fun _ _ _ h => ?_
  refine (steady_nextCell (steadyValue_endpoint room) h).bind fun _ _ _ h => ?_
  refine (steady_required _ h).bind fun _ _ _ h => ?_
  refine (steady_nextCell steadyValue_flag h).bind fun _ _ _ h => ?_
  exact (steady_nextCell (steadyValue_nullable hinner) h).bind fun _ _ _ h => .pure h _

theorem steadyEntry_linkEntry (room : Nat) (hinner : SteadyValue w inner) :
    SteadyEntry w (linkEntry room inner) := by
  intro f r h
  refine (steady_key h).bind fun name r _ h => ?_
  split
  · exact steady_field (steadyValue_endpoint room) h
  · exact steady_field (steadyValue_endpoint room) h
  · exact steady_field steadyValue_flag h
  · exact steady_field (steadyValue_nullable hinner) h
  · exact (steady_unknown h).bind fun _ _ _ h => .pure h f

theorem steady_linkEntries (room : Nat) (hinner : SteadyValue w inner) (h : Clear w .between s) :
    Steady w .word (linkEntries room inner) s := by
  refine (steady_entries (steadyEntry_linkEntry room hinner) _ h).bind fun _ _ _ h => ?_
  refine (steady_present _ h).bind fun _ _ _ h => ?_
  exact (steady_present _ h).bind fun _ _ _ h => .pure h _

end

theorem steadyValue_link (room : Nat) : SteadyValue w (link room) := by
  induction room with
  | zero => exact steadyValue_record fun p hp => by contradiction
  | succ room ih =>
    refine steadyValue_record fun p hp s h => ?_
    obtain rfl := Option.some.inj hp
    exact ⟨steady_linkCells room ih h, steady_linkEntries room ih h⟩

/-! ## Graphs -/

theorem steady_graphCells (room : Nat) (h : Clear w .between s) : Steady w .word (graphCells room) s := by
  refine (steady_firstCell (steadyValue_list steadyValue_node) h).bind fun _ _ _ h => ?_
  exact (steady_nextCell (steadyValue_list steadyValue_link) h).bind fun _ _ _ h => .pure h _

theorem steadyEntry_graphEntry (room : Nat) : SteadyEntry w (graphEntry room) := by
  intro f r h
  refine (steady_key h).bind fun name r _ h => ?_
  split
  · exact steady_field (steadyValue_list steadyValue_node) h
  · exact steady_field (steadyValue_list steadyValue_link) h
  · exact (steady_unknown h).bind fun _ _ _ h => .pure h f

theorem steady_graphEntries (room : Nat) (h : Clear w .between s) : Steady w .word (graphEntries room) s :=
  (steady_entries (steadyEntry_graphEntry room) _ h).bind fun _ _ _ h => .pure h _

theorem steadyValue_graph (room : Nat) : SteadyValue w (graph room) := by
  refine steadyValue_record fun p hp s h => ?_
  cases room with
  | zero => contradiction
  | succ room =>
    obtain rfl := Option.some.inj hp
    exact ⟨steady_graphCells room h, steady_graphEntries room h⟩

/-! ## Payloads -/

/-- What comes of a payload: a graph, or the category of the problem. -/
def verdict (raw : String) : Except Category Graph := (parse raw).value.mapError Problem.category

theorem verdict_eq_graph (raw : String) : verdict raw = (graph maxDepth).verdict raw := by
  rw [verdict, value_parse]
  rfl

/-- A payload ends in a bracket. -/
theorem endsInNumber_of_verdict {raw : String} {g : Graph} (h : verdict raw = .ok g) :
    endsInNumber raw.toList = false := by
  have hread : read raw = .ok g := by
    rw [verdict, value_parse] at h
    cases hread : read raw with
    | error p =>
      rw [hread] at h
      contradiction
    | ok g' =>
      rw [hread] at h
      exact congrArg Except.ok (Except.ok.inj h)
  obtain ⟨t, hdocument, hgraph⟩ := (read_eq_ok_iff raw g).1 hread
  refine endsInNumber_of_document hdocument ?_
  cases t with
  | array xs => exact .inl ⟨xs, rfl⟩
  | object es => exact .inr ⟨es, rfl⟩
  | null | bool | number | string => contradiction

section
variable {raw more : String} {g : Graph} {c : Category}

theorem verdict_append_of_accepted (h : verdict raw = .ok g) :
    verdict (raw ++ more) = if more.toList.all isBlank then .ok g else .error .grammar := by
  have hsplit : splitsNumber raw.toList more.toList = false := by
    rw [splitsNumber, endsInNumber_of_verdict h, Bool.false_and]
  rw [verdict_eq_graph] at h ⊢
  exact verdict_append_of_ok (steadyValue_graph maxDepth) hsplit h

theorem verdict_append_of_rejected (h : verdict raw = .error c) (hc : c ≠ .cutOff)
    (hsplit : splitsNumber raw.toList more.toList = false) : verdict (raw ++ more) = .error c := by
  rw [verdict_eq_graph] at h ⊢
  exact verdict_append_of_error (steadyValue_graph maxDepth) hsplit h hc

end

/-- A payload that is accepted bears blanks behind it and nothing else. A problem other than the end of the
text is final, unless the text is cut inside a number. So what is left of an accepted payload without its
closing bracket is rejected, and as a text that is cut off, unless it is cut inside a number. -/
theorem verdict_append (raw more : String) :
    (∀ g, verdict raw = .ok g →
      verdict (raw ++ more) = if more.toList.all isBlank then .ok g else .error .grammar) ∧
    (∀ c, verdict raw = .error c → c ≠ .cutOff → splitsNumber raw.toList more.toList = false →
      verdict (raw ++ more) = .error c) ∧
    ∀ g, verdict (raw ++ more) = .ok g → more.toList.all isBlank = false →
      ∃ c, verdict raw = .error c ∧ (splitsNumber raw.toList more.toList = false → c = .cutOff) := by
  refine ⟨fun g => verdict_append_of_accepted, fun c => verdict_append_of_rejected, ?_⟩
  intro g hwhole hmore
  cases h : verdict raw with
  | ok g' =>
    have hlonger : verdict (raw ++ more) = if more.toList.all isBlank then .ok g' else .error .grammar :=
      verdict_append_of_accepted h
    rw [hwhole, hmore] at hlonger
    contradiction
  | error c =>
    refine ⟨c, rfl, fun hsplit => ?_⟩
    by_contra hc
    have hlonger := verdict_append_of_rejected h hc hsplit
    rw [hwhole] at hlonger
    contradiction

/-- A bracket too many, a list that is none, a cut inside a word, and a cut inside a number, behind whose
point the text is bad and not just cut off. -/
theorem verdict_append_bracket :
    let empty : Graph := { nodes := [], links := [] }
    let g : Graph := { nodes := [{ id := "a", name := "b", kind := .root }], links := [] }
    (verdict "[]" = .ok empty ∧ verdict ("[]" ++ "]") = .error .grammar) ∧
    (verdict "[null " = .error .shape ∧ verdict ("[null " ++ "]") = .error .shape) ∧
    (verdict ("[[[\"a\",\"b\",\"root\",fals" ++ "e]]]") = .ok g ∧
      ∃ c, verdict "[[[\"a\",\"b\",\"root\",fals" = .error c ∧ c = .cutOff) ∧
    splitsNumber "\x7b\"x\":1.".toList "5\x7d".toList = true ∧
      verdict ("\x7b\"x\":1." ++ "5\x7d") = .ok empty ∧ verdict "\x7b\"x\":1." = .error .grammar := by
  intro empty g
  have haccepted : verdict "[]" = .ok empty := by decide +kernel
  have hrejected : verdict "[null " = .error .shape := by decide +kernel
  have hwhole : verdict ("[[[\"a\",\"b\",\"root\",fals" ++ "e]]]") = .ok g := by decide +kernel
  refine ⟨⟨haccepted, ?_⟩, ⟨hrejected, ?_⟩, ⟨hwhole, ?_⟩, by decide, by decide +kernel, by decide +kernel⟩
  · exact ((verdict_append "[]" "]").1 empty haccepted).trans (if_neg (by decide))
  · exact (verdict_append "[null " "]").2.1 .shape hrejected (by decide) (by decide)
  · obtain ⟨c, hc, hcut⟩ := (verdict_append "[[[\"a\",\"b\",\"root\",fals" "e]]]").2.2 g hwhole (by decide)
    exact ⟨c, hc, hcut (by decide)⟩

end ImportAtlas.Payload
