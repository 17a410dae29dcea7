-- SUMMARY: The pinned bodies of a session are those that were seeded since the last frame.
import ImportAtlas.Proofs.Layout.Marks
import ImportAtlas.Proofs.Session.Mirroring

/-! # Pins

A transition pins what it seeds, and the next frame lets go of everything. What was seeded since the
last frame is kept in a ledger, which knows nothing of engines. Two sessions are held against it: one over
a layout, where exactly the bodies are pinned whose ids are in the ledger, although bodies may have come
and gone in the meantime; and one over a transcript that is begun anew behind each frame, which tells
what an engine hears between two frames. -/

namespace ImportAtlas

/-! ## The pins of a layout -/

namespace Layout

/-- The ids of the pinned bodies. -/
def pins (l : Layout) : List String := (l.bodies.filter (·.pinned)).map (·.id)

theorem mem_pins {l : Layout} {id : String} :
    id ∈ l.pins ↔ ∃ b ∈ l.bodies, b.pinned = true ∧ b.id = id :=
  mem_marked

theorem mem_pins_iff {l : Layout} (hids : (l.bodies.map (·.id)).Nodup) {b : Body} (hb : b ∈ l.bodies) :
    b.id ∈ l.pins ↔ b.pinned = true := by
  rw [mem_pins]
  constructor
  · intro ⟨c, hc, hpinned, hid⟩
    obtain rfl : c = b := List.inj_on_of_nodup_map hids hc hb hid
    exact hpinned
  · intro hpinned
    exact ⟨b, hb, hpinned, rfl⟩

theorem pins_of_tags_eq {l l' : Layout} (h : l'.tags = l.tags) : l'.pins = l.pins := by
  have hpins (l : Layout) : l.pins = (l.tags.filter (·.pinned)).map (·.id) := by
    rw [tags, List.filter_map, List.map_map]
    rfl
  rw [hpins, hpins, h]

theorem pins_unpinAll (l : Layout) : l.unpinAll.pins = [] := by
  simp [pins, unpinAll, List.filter_map]

theorem mem_pins_pin {l : Layout} {ids : List String} {id : String} :
    id ∈ (l.pin ids).pins ↔ id ∈ l.pins ∨ id ∈ ids ∧ id ∈ l.bodies.map (·.id) := by
  have hbody (b : Body) : let b' := if b.id ∈ ids then { b with pinned := true } else b
      (b'.pinned = true ∧ b'.id = id) ↔ (b.pinned = true ∨ b.id ∈ ids) ∧ b.id = id := by
    by_cases hb : b.id ∈ ids <;> simp [hb]
  rw [mem_pins, mem_pins, pin]
  simp only [List.mem_map, exists_exists_and_eq_and, hbody]
  grind

theorem mem_pins_render {l : Layout} (hids : (l.bodies.map (·.id)).Nodup) {g : Graph} {id : String} :
    id ∈ (l.render g).pins ↔ id ∈ g.ids ∧ id ∈ l.pins :=
  mem_marked_render (fun _ => rfl) (fun _ _ _ => rfl) hids

end Layout

namespace Session

/-- After a transition those are pinned that were before, if they are still shown, and the seeds. -/
theorem mem_pins_transition (s : Session Layout) (seeded : List String) (id : String) :
    id ∈ (s.transition seeded).value.engine.pins ↔
      id ∈ s.graph.ids ∧ (id ∈ (s.engine.render s.graph).pins ∨ id ∈ seeded) := by
  have htags := Layout.tags_foldl_place (s.engine.render s.graph) s.seedPoint seeded
  have hids : (seeded.foldl (fun l id => l.place id (s.seedPoint id))
      (s.engine.render s.graph)).bodies.map (·.id) = s.graph.ids.eraseDups :=
    ((Layout.mirrors_render s.engine s.graph).congr (Layout.face_of_tags_eq htags)
      (Layout.edges_foldl_place _ s.seedPoint seeded)).ids
  have hshown (h : id ∈ (s.engine.render s.graph).pins) : id ∈ s.graph.ids := by
    obtain ⟨b, hb, -, rfl⟩ := Layout.mem_pins.1 h
    exact List.mem_eraseDups.1 (Layout.ids_render s.engine s.graph ▸ List.mem_map_of_mem hb)
  rw [engine_transition]
  refine Layout.mem_pins_pin.trans ?_
  rw [Layout.pins_of_tags_eq htags, hids, List.mem_eraseDups]
  grind

/-! ## Transcripts -/

variable {ε : Type} [Engine ε]

theorem pinned_advance (s : Session ε) (next : Grouping × Graph) (seeded : List String) :
    (s.advance next seeded).pinned = (s.pinned || !seeded.isEmpty) := by
  cases seeded with
  | nil => simp [advance, transition, seed]
  | cons id ids => simp [advance, transition, seed]

theorem calls_foldl_place (t : Transcript) (point : String → Point) (ids : List String) :
    (ids.foldl (fun t id => Engine.place t id (point id)) t).calls =
      t.calls ++ ids.map fun id => .place id (point id) := by
  induction ids generalizing t with
  | nil => simp
  | cons id ids ih =>
    rw [List.foldl_cons, ih]
    simp [Engine.place, Transcript.add]

/-- What an engine is told in a transition. -/
theorem calls_transition (t : Session Transcript) (seeded : List String) :
    (t.transition seeded).value.engine.calls =
      t.engine.calls ++ [.render t.graph.ids t.graph.links.length] ++
        seeded.map (fun id => .place id (t.seedPoint id)) ++
        (if seeded.isEmpty then [] else [.pin seeded]) ++ [.start t.graph.nodes.length t.config] := by
  have hplace := calls_foldl_place (t.engine.add (.render t.graph.ids t.graph.links.length)) t.seedPoint
    seeded
  cases seeded with
  | nil =>
    simp only [List.map_nil, List.isEmpty_nil, if_true, List.append_nil]
    rfl
  | cons id ids =>
    refine congrArg (· ++ [Call.pin (id :: ids)] ++ [Call.start t.graph.nodes.length t.config]) ?_
    exact hplace

section
variable {t : Session Transcript} {next : Grouping × Graph} {seeded : List String}

theorem place_mem_advance {id : String} :
    (∃ p, Call.place id p ∈ (t.advance next seeded).engine.calls) ↔
      (∃ p, Call.place id p ∈ t.engine.calls) ∨ id ∈ seeded := by
  rw [advance, calls_transition]
  cases seeded <;> simp [exists_or]

theorem pin_mem_advance {ids : List String} :
    Call.pin ids ∈ (t.advance next seeded).engine.calls ↔
      Call.pin ids ∈ t.engine.calls ∨ ids = seeded ∧ seeded ≠ [] := by
  rw [advance, calls_transition]
  cases seeded <;> simp

theorem unpinAll_mem_advance :
    Call.unpinAll ∈ (t.advance next seeded).engine.calls ↔ Call.unpinAll ∈ t.engine.calls := by
  rw [advance, calls_transition]
  cases seeded <;> simp

end

/-! ## Ledgers -/

/-- What is shown after some intents, and which ids were seeded since the last frame. -/
structure Ledger where
  shown : Grouping × Graph
  seeded : List String

namespace Ledger

/-- Enter one intent. -/
def enter (d : Ledger) (i : Intent) : Ledger where
  shown := i.respond d.shown
  seeded :=
    match i with
    | .beginFrame => []
    | _ => d.seeded ++ i.seeds d.shown

/-- The ledger of a session that was given a graph, of which every id is seeded, and then intents. -/
def of (g : Graph) (is : List Intent) : Ledger := is.foldl enter ⟨({}, g), g.ids⟩

theorem enter_eq (d : Ledger) {i : Intent} (hi : i ≠ .beginFrame) :
    d.enter i = ⟨i.respond d.shown, d.seeded ++ i.seeds d.shown⟩ := by
  cases i with
  | beginFrame => exact absurd rfl hi
  | _ => rfl

end Ledger

/-- A session shows what the ledger says, and knows whether something was seeded. -/
structure Heeds (s : Session ε) (d : Ledger) : Prop where
  shown : s.shown = d.shown
  pinned : s.pinned = !d.seeded.isEmpty

omit [Engine ε] in
theorem heeds_blank (g : Graph) (engine : ε) (config : SimConfig) :
    Heeds { graph := g, engine := engine, config := config } ⟨({}, g), []⟩ :=
  ⟨rfl, rfl⟩

theorem pinned_beginFrame (s : Session ε) : s.beginFrame.pinned = false := by
  unfold beginFrame
  split
  next => rfl
  next hpinned => simpa using hpinned

namespace Heeds

variable {s : Session ε} {d : Ledger}

theorem advance (h : s.Heeds d) (next : Grouping × Graph) (seeds : List String) :
    (s.advance next seeds).Heeds ⟨next, d.seeded ++ seeds⟩ := by
  refine ⟨s.shown_advance next seeds, ?_⟩
  rw [pinned_advance, h.pinned]
  cases d.seeded <;> rfl

theorem attend (h : s.Heeds d) {i : Intent} (hi : i ≠ .beginFrame) : (s.attend i).Heeds d := by
  cases i with
  | beginFrame => exact absurd rfl hi
  | _ => exact ⟨h.shown, h.pinned⟩

theorem frame (h : s.Heeds d) : s.beginFrame.Heeds (d.enter .beginFrame) :=
  ⟨s.shown_beginFrame.trans h.shown, s.pinned_beginFrame⟩

/-- An intent without a transition leaves the ledger alone, unless it is a frame. -/
theorem enter_of_not_transits (h : s.Heeds d) {i : Intent} (hi : i.transits s.shown = false)
    (hframe : i ≠ .beginFrame) : d.enter i = d := by
  rw [d.enter_eq hframe, ← h.shown, respond_of_not_transits hi, seeds_of_not_transits hi,
    List.append_nil, h.shown]

end Heeds

/-! ## Layouts and ledgers -/

/-- The layout of a session has pinned what the ledger says, as far as it is still shown. -/
structure Pins (s : Session Layout) (d : Ledger) : Prop extends s.Heeds d where
  pins {id : String} : id ∈ s.engine.pins ↔ id ∈ s.graph.ids ∧ id ∈ d.seeded

theorem pins_ofGraph (g : Graph) (layout : Layout) (config : SimConfig) :
    (ofGraph g layout config).value.Pins (.of g []) where
  toHeeds := (heeds_blank g layout config).advance ({}, g) g.ids
  pins {id} := by
    rw [ofGraph_eq_advance, graph_advance]
    refine (mem_pins_transition { graph := g, engine := layout, config } g.ids id).trans ?_
    exact and_congr_right fun hid => iff_of_true (.inr hid) hid

namespace Pins

variable {s : Session Layout} {d : Ledger}

/-- An id that is not seeded was there before, so its body is carried over with its pin. -/
theorem respond (h : s.Pins d) (hmirrors : s.engine.Mirrors s.graph) (i : Intent) :
    (s.advance (i.respond s.shown) (i.seeds s.shown)).Pins
      ⟨i.respond s.shown, d.seeded ++ i.seeds s.shown⟩ where
  toHeeds := h.toHeeds.advance _ _
  pins {id} := by
    rw [graph_advance]
    refine (mem_pins_transition { s with grouping := _, graph := _ } (i.seeds s.shown) id).trans ?_
    refine and_congr_right fun hnext => ?_
    rw [List.mem_append]
    -- an id that comes back after it was gone is new again, so what is not seeded never was away
    by_cases hid : id ∈ i.seeds s.shown
    · simp [hid]
    · have hold : id ∈ s.graph.ids := by
        by_contra hold
        exact hid (Intent.mem_seeds hnext hold)
      rw [Layout.mem_pins_render hmirrors.nodup_ids, h.pins]
      simp [hid, hnext, hold]

/-- A frame lets go of every body. -/
theorem pins_beginFrame (h : s.Pins d) : s.beginFrame.engine.pins = [] := by
  unfold beginFrame
  split
  next => exact Layout.pins_unpinAll s.engine
  next hpinned =>
    -- the session knows of no pin, so the ledger is empty
    refine List.eq_nil_iff_forall_not_mem.2 fun id hid => hpinned ?_
    have hseeded : d.seeded ≠ [] := List.ne_nil_of_mem (h.pins.1 hid).2
    simp [h.pinned, hseeded]

theorem perform (h : s.Pins d) (hmirrors : s.engine.Mirrors s.graph) (i : Intent) :
    (s.perform i).Pins (d.enter i) := by
  by_cases hi : i = .beginFrame
  · subst hi
    refine ⟨h.toHeeds.frame, ?_⟩
    intro id
    rw [Session.perform, h.pins_beginFrame]
    simp [Ledger.enter]
  · cases htransits : i.transits s.shown with
    | true =>
      rw [perform_of_transits htransits, d.enter_eq hi, ← h.shown]
      exact h.respond hmirrors i
    | false =>
      rw [perform_of_not_transits htransits, h.enter_of_not_transits htransits hi]
      refine ⟨h.toHeeds.attend hi, ?_⟩
      cases i with
      | beginFrame => exact absurd rfl hi
      | _ => exact h.pins

theorem move (h : s.Pins d) (m : Layout.Move) : Pins { s with engine := s.engine.move m } d where
  shown := h.shown
  pinned := h.pinned
  pins {id} := by
    rw [Layout.pins_of_tags_eq (s.engine.tags_move m)]
    exact h.pins

end Pins

/-- The intent among the acts. -/
def Act.intent? : Act → Option Intent
  | .intent i => some i
  | .move _ => none

theorem pins_play (g : Graph) (layout : Layout) (config : SimConfig) (acts : List Act) :
    (play g layout config acts).Pins (.of g (acts.filterMap Act.intent?)) := by
  induction acts using List.reverseRecOn with
  | nil => exact pins_ofGraph g layout config
  | append_singleton acts a ih =>
    rw [play_concat, List.filterMap_append]
    cases a with
    | intent i =>
      have hledger : Ledger.of g (acts.filterMap Act.intent? ++ [Act.intent i].filterMap Act.intent?) =
          (Ledger.of g (acts.filterMap Act.intent?)).enter i :=
        List.foldl_concat ..
      rw [hledger]
      exact ih.perform (mirrors_play g layout config acts) i
    | move m =>
      have hledger : acts.filterMap Act.intent? ++ [Act.move m].filterMap Act.intent? =
          acts.filterMap Act.intent? :=
        List.append_nil _
      rw [hledger]
      exact ih.move m

/-! ## Transcripts and ledgers -/

/-- Note one intent. Behind a frame a new page is begun. -/
def jot (t : Session Transcript) : Intent → Session Transcript
  | .beginFrame => { t.beginFrame with engine := {} }
  | i => t.perform i

/-- A session that was given a graph and then intents, with what its engine was told since the last
frame. -/
def jotted (g : Graph) (config : SimConfig) (is : List Intent) : Session Transcript :=
  is.foldl jot (ofGraph g {} config).value

/-- The page says that what the ledger says was placed and pinned, and that nothing was let go. -/
structure Notes (t : Session Transcript) (d : Ledger) : Prop extends t.Heeds d where
  placed {id : String} : (∃ p, Call.place id p ∈ t.engine.calls) ↔ id ∈ d.seeded
  pins : (∃ id ids, Call.pin (id :: ids) ∈ t.engine.calls) ↔ d.seeded ≠ []
  quiet : Call.unpinAll ∉ t.engine.calls

namespace Notes

variable {t : Session Transcript} {d : Ledger}

theorem advance (h : t.Notes d) (next : Grouping × Graph) (seeds : List String) :
    (t.advance next seeds).Notes ⟨next, d.seeded ++ seeds⟩ where
  toHeeds := h.toHeeds.advance next seeds
  placed {id} := by
    rw [place_mem_advance, h.placed, List.mem_append]
  pins := by
    simp only [pin_mem_advance, exists_or, h.pins]
    cases seeds <;> simp
  quiet := by
    rw [unpinAll_mem_advance]
    exact h.quiet

theorem attend (h : t.Notes d) {i : Intent} (hi : i ≠ .beginFrame) : (t.attend i).Notes d := by
  cases i with
  | toggleGrouping => exact h
  | click id => exact h
  | collapse => exact h
  | setConfig config =>
    have hcalls : (t.attend (.setConfig config)).engine.calls =
        t.engine.calls ++ [.start t.graph.nodes.length config] := rfl
    refine ⟨h.toHeeds.attend hi, ?_, ?_, ?_⟩
    · intro id
      rw [← h.placed]
      simp [hcalls]
    · rw [← h.pins]
      simp [hcalls]
    · simpa [hcalls] using h.quiet
  | setCenter center => exact ⟨h.toHeeds.attend hi, h.placed, h.pins, h.quiet⟩
  | beginFrame => exact absurd rfl hi

theorem frame (h : t.Notes d) : Notes { t.beginFrame with engine := {} } (d.enter .beginFrame) where
  shown := h.toHeeds.frame.shown
  pinned := h.toHeeds.frame.pinned
  placed := by simp [Ledger.enter]
  pins := by simp [Ledger.enter]
  quiet := by simp

theorem jot (h : t.Notes d) (i : Intent) : (t.jot i).Notes (d.enter i) := by
  by_cases hi : i = .beginFrame
  · subst hi
    exact h.frame
  · have hjot : t.jot i = t.perform i := by
      cases i with
      | beginFrame => exact absurd rfl hi
      | _ => rfl
    rw [hjot]
    cases htransits : i.transits t.shown with
    | true =>
      rw [perform_of_transits htransits, d.enter_eq hi, ← h.shown]
      exact h.advance _ _
    | false =>
      rw [perform_of_not_transits htransits, h.enter_of_not_transits htransits hi]
      exact h.attend hi

/-- A frame tells the engine to let go exactly if something was pinned since the one before it. -/
theorem unpinAll_mem_beginFrame (h : t.Notes d) :
    Call.unpinAll ∈ t.beginFrame.engine.calls ↔ ∃ id ids, Call.pin (id :: ids) ∈ t.engine.calls := by
  rw [h.pins]
  unfold beginFrame
  split
  next hpinned => simpa [Engine.unpinAll, Transcript.add, h.pinned] using hpinned
  next hpinned => simpa [h.quiet, h.pinned] using hpinned

end Notes

theorem notes_jotted (g : Graph) (config : SimConfig) (is : List Intent) :
    (jotted g config is).Notes (.of g is) := by
  induction is using List.reverseRecOn with
  | nil =>
    have hblank : Notes { graph := g, engine := {}, config } ⟨({}, g), []⟩ :=
      ⟨heeds_blank g _ config, by simp, by simp, by simp⟩
    exact hblank.advance ({}, g) g.ids
  | append_singleton is i ih =>
    rw [jotted, Ledger.of, List.foldl_concat, List.foldl_concat]
    exact ih.jot i

/-! ## The pinned bodies -/

/-- What is pinned in the layout of one session, and what the engine of the other was told to place and
pin, are the ids in the ledger. -/
structure Ledger.AccountsFor (d : Ledger) (s : Session Layout) (t : Session Transcript) : Prop where
  /-- apart from their engines the two sessions are in the same state -/
  agree : t.shown = s.shown ∧ t.pinned = s.pinned
  /-- a body is pinned exactly if it was seeded since the last frame -/
  pinned {b : Body} (h : b ∈ s.engine.bodies) : b.pinned = true ↔ b.id ∈ d.seeded
  /-- what was seeded was placed -/
  placed {id : String} : (∃ p, Call.place id p ∈ t.engine.calls) ↔ id ∈ d.seeded
  /-- right after a frame no body is pinned -/
  released {b : Body} (h : b ∈ s.beginFrame.engine.bodies) : b.pinned = false
  /-- a frame lets go of pins exactly if some were set since the one before it -/
  release : Call.unpinAll ∈ t.beginFrame.engine.calls ↔
    ∃ id ids, Call.pin (id :: ids) ∈ t.engine.calls

theorem Pins.pinned_iff {s : Session Layout} {d : Ledger} (h : s.Pins d)
    (hmirrors : s.engine.Mirrors s.graph) {b : Body} (hb : b ∈ s.engine.bodies) :
    b.pinned = true ↔ b.id ∈ d.seeded := by
  have hshown : b.id ∈ s.graph.ids := List.mem_eraseDups.1 (hmirrors.ids ▸ List.mem_map_of_mem hb)
  rw [← Layout.mem_pins_iff hmirrors.nodup_ids hb, h.pins]
  exact and_iff_right hshown

/-- At any point of a run, exactly those bodies are pinned that were seeded since the last frame. -/
theorem accountsFor_play (g : Graph) (layout : Layout) (config : SimConfig) (acts : List Act) :
    (Ledger.of g (acts.filterMap Act.intent?)).AccountsFor (play g layout config acts)
      (jotted g config (acts.filterMap Act.intent?)) := by
  have hpins := pins_play g layout config acts
  have hnotes := notes_jotted g config (acts.filterMap Act.intent?)
  refine ⟨⟨hnotes.shown.trans hpins.shown.symm, hnotes.pinned.trans hpins.pinned.symm⟩,
    hpins.pinned_iff (mirrors_play g layout config acts), hnotes.placed, ?_,
    hnotes.unpinAll_mem_beginFrame⟩
  intro b hb
  by_contra hpinned
  have hmem : b.id ∈ (play g layout config acts).beginFrame.engine.pins :=
    Layout.mem_pins.2 ⟨b, hb, by simpa using hpinned, rfl⟩
  simp [hpins.pins_beginFrame] at hmem

end Session

end ImportAtlas
