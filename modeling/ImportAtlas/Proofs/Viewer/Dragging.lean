-- SUMMARY: A drag, the body held and the warmth of the simulation agree as long as the dragged node is shown.
import ImportAtlas.Proofs.Layout.Marks
import ImportAtlas.Proofs.Session.Mirroring
import ImportAtlas.Proofs.Viewer.Stages
import Mathlib.Data.List.Infix

/-! # Drags

Three things say that a node is dragged: the viewer knows its id, its body is held, and the simulation
is kept warm. A drag that begins sets all three and one that ends resets them. In between another graph
may be shown, in which the node is missing. Then the body is gone and is not held even if the node comes
back; and when the viewer finds the node missing, it forgets the drag and leaves the simulation warm. So
the three agree throughout a run exactly if the dragged node is shown throughout. -/

namespace ImportAtlas

theorem Layout.Mirrors.mem_ids_of_held {l : Layout} {g : Graph} (h : l.Mirrors g) {id : String}
    (hid : id ∈ l.held) : id ∈ g.ids := by
  obtain ⟨b, hb, -, rfl⟩ := mem_marked.1 hid
  exact List.mem_eraseDups.1 (h.ids ▸ List.mem_map_of_mem hb)

theorem Layout.Mirrors.exists_body {l : Layout} {g : Graph} (h : l.Mirrors g) {id : String} {i : Nat}
    (hi : l.index? id = some i) : ∃ b, l.bodies[i]? = some b ∧ b.id = id := by
  have hid : (l.bodies.map (·.id))[i]? = some id := by
    rw [h.ids]
    exact h.index.1 hi
  rw [List.getElem?_map] at hid
  exact Option.map_eq_some_iff.1 hid

/-- The index finds every id of the graph and no other. -/
theorem Layout.Mirrors.index?_eq_none_iff {l : Layout} {g : Graph} (h : l.Mirrors g) {id : String} :
    l.index? id = none ↔ id ∉ g.ids := by
  constructor
  · intro hnone hid
    obtain ⟨i, hi⟩ := List.mem_iff_getElem?.1 (List.mem_eraseDups.2 hid)
    rw [h.index.2 hi] at hnone
    contradiction
  · intro hid
    refine Option.eq_none_iff_forall_ne_some.2 fun i hi => hid ?_
    exact List.mem_eraseDups.1 (List.mem_of_getElem? (h.index.1 hi))

namespace Session

variable {s : Session Layout}

theorem held_transition (s : Session Layout) (seeded : List String) :
    (s.transition seeded).value.engine.held = (s.engine.render s.graph).held := by
  rw [engine_transition]
  refine Layout.held_of_grasps_eq ?_
  exact (Layout.grasps_pin _ seeded).trans (Layout.grasps_foldl_place _ s.seedPoint seeded)

theorem held_attend (s : Session Layout) (i : Intent) : (s.attend i).engine.held = s.engine.held := by
  cases i with
  | beginFrame =>
    simp only [attend, beginFrame]
    split
    next => exact Layout.held_of_grasps_eq (Layout.grasps_unpinAll _)
    next => rfl
  | _ => rfl

/-- A body that was held before an intent is held after it if it is still shown. -/
theorem mem_held_perform (h : s.engine.Mirrors s.graph) (i : Intent) {id : String} :
    id ∈ (s.perform i).engine.held ↔ id ∈ (s.perform i).graph.ids ∧ id ∈ s.engine.held := by
  cases hi : i.transits s.shown with
  | true =>
    rw [perform_of_transits hi, graph_advance, advance, held_transition]
    exact Layout.mem_held_render h.nodup_ids
  | false =>
    have hgraph : (s.attend i).graph = s.graph := congrArg Prod.snd (s.shown_attend i)
    rw [perform_of_not_transits hi, held_attend, hgraph]
    exact ⟨fun hid => ⟨h.mem_ids_of_held hid, hid⟩, fun hid => hid.2⟩

theorem target_perform (s : Session Layout) (i : Intent) :
    (s.perform i).engine.target = s.engine.target := by
  cases hi : i.transits s.shown with
  | true =>
    rw [perform_of_transits hi, advance, engine_transition]
    exact Layout.target_foldl_place _ _ _
  | false =>
    rw [perform_of_not_transits hi]
    cases i with
    | beginFrame =>
      simp only [attend, beginFrame]
      split <;> rfl
    | _ => rfl

end Session

/-! ## Gestures -/

namespace Gesture

/-- Whether a drag is under way behind a gesture, given whether one was before. -/
def leaves (busy : Bool) (g : Gesture) : Bool := (busy || g.started.isSome) && !g.stopped

/-- A drag begins only when none is under way. -/
def Orderly (busy : Bool) : List Gesture → Prop
  | [] => True
  | g :: gs => (busy = true → g.started = none) ∧ Orderly (g.leaves busy) gs

instance decidableOrderly : (busy : Bool) → (gs : List Gesture) → Decidable (Orderly busy gs)
  | _, [] => isTrue trivial
  | busy, g :: gs =>
    have := decidableOrderly (g.leaves busy) gs
    inferInstanceAs (Decidable ((busy = true → g.started = none) ∧ Orderly (g.leaves busy) gs))

theorem orderly_append {busy : Bool} {gs gs' : List Gesture} :
    Orderly busy (gs ++ gs') ↔ Orderly busy gs ∧ Orderly (gs.foldl leaves busy) gs' := by
  induction gs generalizing busy with
  | nil => simp [Orderly]
  | cons g gs ih => simp [Orderly, ih, and_assoc]

end Gesture

/-- The gestures that some inputs mean for the canvas. -/
def Pointer.gestures (p : Pointer) : List PointerInput → List Gesture
  | [] => []
  | input :: inputs => (p.feed input).2 :: (p.feed input).1.gestures inputs

/-- A pointer begins a drag only when it is not dragging, and knows whether it is. -/
theorem Pointer.leaves_feed (p : Pointer) (input : PointerInput) :
    (p.drag?.isSome = true → (p.feed input).2.started = none) ∧
      (p.feed input).2.leaves p.drag?.isSome = (p.feed input).1.drag?.isSome := by
  have hdrag {d : Press} (hd : p.press = some d) : p.drag?.isSome = d.dragging := by
    cases hdragging : d.dragging <;> simp [drag?, hd, hdragging]
  cases hp : p.press with
  | none =>
    cases input with
    | press b => cases hpos : p.pos <;> simp [feed, hp, hpos, rest, Gesture.leaves, drag?]
    | _ => simp [feed, move, hp, rest, Gesture.leaves, drag?]
  | some d =>
    rw [hdrag hp]
    cases input with
    | release b =>
      by_cases hb : d.button = b <;> cases hd : d.dragging <;>
        simp [feed, hp, hb, hd, rest, Gesture.leaves, drag?]
    | _ => cases hd : d.dragging <;> simp [feed, move, hp, hd, rest, Gesture.leaves, drag?]

theorem Pointer.orderly_gestures (p : Pointer) (inputs : List PointerInput) :
    Gesture.Orderly p.drag?.isSome (p.gestures inputs) := by
  induction inputs generalizing p with
  | nil => trivial
  | cons input inputs ih =>
    obtain ⟨hstart, hleaves⟩ := p.leaves_feed input
    refine ⟨hstart, ?_⟩
    rw [hleaves]
    exact ih (p.feed input).1

namespace Viewer

/-! ## Agreement -/

/-- The dragged node is the one that is held, and the simulation is kept warm just while there is
one. -/
structure Coherent (v : Viewer) : Prop where
  held : v.layout.held = v.dragging.toList
  target : v.layout.target = if v.dragging.isSome then Layout.dragTarget else 0.0

/-- The dragged node is in the graph. -/
def Shows (v : Viewer) : Prop := ∀ id ∈ v.dragging, id ∈ v.graph.ids

instance (v : Viewer) : Decidable v.Shows :=
  inferInstanceAs (Decidable (∀ id ∈ v.dragging, id ∈ v.graph.ids))

/-- What holds in any case, where `busy` tells whether a drag is under way. -/
structure Sane (busy : Bool) (v : Viewer) : Prop where
  mirrors : v.layout.Mirrors v.graph
  held {id : String} (h : id ∈ v.layout.held) : v.dragging = some id
  target (h : v.dragging.isSome = true) : v.layout.target = Layout.dragTarget
  busy (h : v.layout.held ≠ []) : busy = true

theorem Coherent.shows {v : Viewer} (h : v.Coherent) (hm : v.layout.Mirrors v.graph) : v.Shows := by
  intro id hid
  refine hm.mem_ids_of_held ?_
  rw [h.held]
  exact Option.mem_toList.2 hid

theorem Sane.held_eq_nil {v : Viewer} (h : v.Sane false) : v.layout.held = [] :=
  Classical.byContradiction fun hne => Bool.false_ne_true (h.busy hne)

/-- Without a drag nothing is held. -/
theorem Sane.not_dragging {busy : Bool} {v : Viewer} (h : v.Sane busy) (hnone : v.dragging = none) :
    v.layout.held = [] := by
  refine List.eq_nil_iff_forall_not_mem.2 fun id hid => ?_
  simpa [hnone] using h.held hid

/-! ## What does not concern a drag -/

/-- The other viewer is the same as far as drags are concerned. -/
structure Rests (v v' : Viewer) : Prop where
  dragging : v'.dragging = v.dragging
  graph : v'.graph = v.graph
  held : v'.layout.held = v.layout.held
  target : v'.layout.target = v.layout.target
  mirrors (h : v.layout.Mirrors v.graph) : v'.layout.Mirrors v.graph

namespace Rests

variable {v v' v'' : Viewer}

theorem of_session (hdragging : v'.dragging = v.dragging) (hsession : v'.session = v.session) :
    Rests v v' where
  dragging := hdragging
  graph := congrArg Session.graph hsession
  held := congrArg (fun s => s.engine.held) hsession
  target := congrArg (fun s => s.engine.target) hsession
  mirrors h := by
    rw [layout, hsession]
    exact h

theorem refl (v : Viewer) : Rests v v := of_session rfl rfl

theorem trans (h : Rests v v') (h' : Rests v' v'') : Rests v v'' where
  dragging := h'.dragging.trans h.dragging
  graph := h'.graph.trans h.graph
  held := h'.held.trans h.held
  target := h'.target.trans h.target
  mirrors hm := h.graph ▸ h'.mirrors (h.graph.symm ▸ h.mirrors hm)

theorem coherent (h : Rests v v') (hv : v.Coherent) : v'.Coherent where
  held := by rw [h.held, h.dragging, hv.held]
  target := by rw [h.target, h.dragging, hv.target]

theorem sane (h : Rests v v') {busy : Bool} (hv : v.Sane busy) : v'.Sane busy where
  mirrors := h.graph.symm ▸ h.mirrors hv.mirrors
  held hid := h.dragging.trans (hv.held (h.held ▸ hid))
  target hsome := h.target.trans (hv.target (h.dragging ▸ hsome))
  busy hne := hv.busy (h.held ▸ hne)

theorem shows (h : Rests v v') : v'.Shows ↔ v.Shows := by
  rw [Shows, Shows, h.dragging, h.graph]

end Rests

section
variable (v : Viewer) (r : Rect Float32) (g : Gesture)

theorem rests_beginFrame : v.Rests v.beginFrame where
  dragging := rfl
  graph := congrArg Prod.snd v.session.shown_beginFrame
  held := v.session.held_attend .beginFrame
  target := v.session.target_perform .beginFrame
  mirrors h := by
    have hgraph : v.session.beginFrame.graph = v.session.graph :=
      congrArg Prod.snd v.session.shown_beginFrame
    have hframe := Session.mirrors_beginFrame h
    rwa [hgraph] at hframe

theorem rests_zoomBy : v.Rests (v.zoomBy r g) := by
  unfold zoomBy
  split
  next => exact .refl v
  next => exact .of_session rfl rfl

theorem rests_approach : v.Rests (v.approach r g) := by
  have hcenter (v : Viewer) : v.Rests (v.updateCenter r) := ⟨rfl, rfl, rfl, rfl, fun h => h⟩
  exact (v.rests_beginFrame.trans (rests_zoomBy _ r g)).trans (hcenter _)

theorem rests_panBy : v.Rests (v.panBy g) := by
  unfold panBy
  split
  next => exact .refl v
  next =>
    split
    next => exact .refl v
    next => exact .of_session rfl rfl
  next => exact .of_session rfl rfl

theorem rests_step : v.Rests (v.mapLayout (·.step.1)) where
  dragging := rfl
  graph := rfl
  held := Layout.held_of_grasps_eq v.layout.grasps_step
  target := v.layout.target_step
  mirrors h := h.move .tick

theorem rests_tick : v.Rests v.tick := by
  unfold tick
  split
  next => exact v.rests_step
  next => exact .refl v

theorem rests_matching : v.Rests v.matching.1 := by
  unfold matching
  split
  next => exact .refl v
  next =>
    split
    next => exact .refl v
    next => exact .of_session rfl rfl

/-- What follows a drag in a frame does not concern it, up to the click. -/
theorem rests_outcome : ((v.approach r g).dragNode r g (v.underPointer r g)).Rests (v.outcome r g) := by
  have htally (v : Viewer) : v.Rests (v.tally r) := .of_session rfl rfl
  rw [outcome, pause]
  generalize (v.approach r g).dragNode r g (v.underPointer r g) = u
  exact (((u.rests_panBy g).trans (rests_tick _)).trans (rests_matching _)).trans (htally _)

end

/-! ## What an act does -/

/-- The gesture of an act. -/
def Act.gesture? : Act → Option Gesture
  | .stage (.drag _ g _) => some g
  | .stage _ => none
  | .frame _ g => some g

/-- How the gesture of an act is handled. It is missed if the graph has no nodes. -/
inductive Handles : Option Gesture → Viewer → Viewer → Prop where
  | nothing (v : Viewer) : Handles none v v
  | drag (v : Viewer) (r : Rect Float32) (g : Gesture) (hovered : Option Nat) :
      Handles (some g) v (v.dragNode r g hovered)
  | missed {v : Viewer} (h : v.graph.nodes = []) (g : Gesture) : Handles (some g) v v

/-- How an intent is answered, or that there is none. -/
inductive Answers : Viewer → Viewer → Prop where
  | nothing (v : Viewer) : Answers v v
  | intent (v : Viewer) (i : Session.Intent) : Answers v (v.attend i).value

theorem answers_clickAt (v : Viewer) (g : Gesture) (hovered : Option Nat) :
    ∃ u, v.Answers u ∧ u.Rests (v.clickAt g hovered).value := by
  unfold clickAt
  split
  next =>
    cases hovered.bind fun i => v.layout.bodies[i]?.map (·.id) with
    | none => exact ⟨v, .nothing v, .of_session rfl rfl⟩
    | some id => exact ⟨_, .intent v (.click id), .of_session rfl rfl⟩
  next => exact ⟨v, .nothing v, .refl v⟩

/-- An act handles its gesture, then it may make an intent, and all else in it does not concern
drags. -/
theorem exists_handles_answers (v : Viewer) (a : Act) :
    ∃ v₁ v₂ v₃ v₄, v.Rests v₁ ∧ Handles a.gesture? v₁ v₂ ∧ v₂.Rests v₃ ∧ v₃.Answers v₄ ∧
      v₄.Rests (v.act a).value := by
  have hrests {v' : Viewer} (h : v.Rests v') :
      ∃ v₁ v₂ v₃ v₄, v.Rests v₁ ∧ Handles none v₁ v₂ ∧ v₂.Rests v₃ ∧ v₃.Answers v₄ ∧ v₄.Rests v' :=
    ⟨v, v, v, v, .refl v, .nothing v, .refl v, .nothing v, h⟩
  cases a with
  | stage s =>
    cases s with
    | type text => exact hrests (.of_session rfl rfl)
    | select id => exact hrests (.of_session rfl rfl)
    | setLive on => exact hrests (.of_session rfl rfl)
    | resetView => exact hrests (.of_session rfl rfl)
    | intent i => exact ⟨v, v, v, _, .refl v, .nothing v, .refl v, .intent v i, .refl _⟩
    | zoom r g => exact hrests (v.rests_zoomBy r g)
    | drag r g hovered => exact ⟨v, _, _, _, .refl v, .drag v r g hovered, .refl _, .nothing _, .refl _⟩
    | pan g => exact hrests (v.rests_panBy g)
    | tick => exact hrests v.rests_tick
    | step => exact hrests v.rests_step
    | find =>
      have hfind : (v.act (.stage .find)).value = v.matching.1 := by
        rw [act, stage, Logged.value_pure]
      rw [hfind]
      exact hrests v.rests_matching
    | tally r => exact hrests (.of_session rfl rfl)
  | frame r g =>
    have happroach := v.rests_approach r g
    rw [act, frame_eq]
    split
    next hempty =>
      rw [Logged.value_map, Logged.value_pure]
      generalize v.approach r g = u at happroach hempty
      exact ⟨u, u, u, u, happroach, .missed (List.isEmpty_iff.1 hempty) g, .refl u, .nothing u, .refl u⟩
    next =>
      obtain ⟨u, hanswers, hu⟩ := answers_clickAt (v.outcome r g) g (v.underPointer r g)
      have hdrag := Handles.drag (v.approach r g) r g (v.underPointer r g)
      rw [Logged.value_map, Logged.value_map]
      exact ⟨v.approach r g, _, v.outcome r g, u, happroach, hdrag, v.rests_outcome r g, hanswers, hu⟩

/-! ## What intents and drags keep -/

variable {busy : Bool} {v v' : Viewer}

theorem value_attend (v : Viewer) (i : Session.Intent) :
    (v.attend i).value = { v with session := v.session.perform i } := by
  simp [attend]

theorem Sane.answers (h : v.Sane busy) (ha : v.Answers v') : v'.Sane busy := by
  cases ha with
  | nothing => exact h
  | intent i =>
    rw [value_attend]
    have hheld {id : String} (hid : id ∈ (v.session.perform i).engine.held) : id ∈ v.layout.held :=
      ((Session.mem_held_perform h.mirrors i).1 hid).2
    refine ⟨Session.mirrors_perform h.mirrors i, fun hid => h.held (hheld hid), fun hsome => ?_, ?_⟩
    · exact (v.session.target_perform i).trans (h.target hsome)
    · intro hne
      obtain ⟨id, hid⟩ := List.exists_mem_of_ne_nil _ hne
      exact h.busy (List.ne_nil_of_mem (hheld hid))

/-- An intent keeps the agreement if the dragged node is shown behind it. -/
theorem Coherent.answers (h : v.Coherent) (hm : v.layout.Mirrors v.graph) (ha : v.Answers v')
    (hshows : v'.Shows) : v'.Coherent := by
  cases ha with
  | nothing => exact h
  | intent i =>
    rw [value_attend] at hshows ⊢
    refine ⟨?_, (v.session.target_perform i).trans h.target⟩
    have hmirrors := Session.mirrors_perform hm i
    refine (Layout.held_eq_toList_iff hmirrors.nodup_ids).2 fun id => ?_
    have hbefore := (Layout.held_eq_toList_iff hm.nodup_ids).1 h.held id
    refine (Session.mem_held_perform hm i).trans ?_
    exact ⟨fun hid => hbefore.1 hid.2, fun hid => ⟨hshows id hid, hbefore.2 hid⟩⟩

/-- A drag that begins on a body makes the viewer agree with the layout, whatever was before. -/
theorem Sane.begin (h : v.Sane false) {g : Gesture} (hstarted : g.started = some .primary) {i : Nat}
    {b : Body} (hb : v.layout.bodies[i]? = some b) :
    (v.beginDrag g (some i)).Coherent ∧ (v.beginDrag g (some i)).Sane true := by
  have hi : i < v.layout.bodies.length := (List.getElem?_eq_some_iff.1 hb).1
  have hbegin : v.beginDrag g (some i) = { v.mapLayout (·.hold i) with dragging := some b.id } := by
    simp only [beginDrag, hstarted, hb, Option.map_some]
  have hheld (id : String) : id ∈ (v.layout.hold i).held ↔ some b.id = some id := by
    rw [Layout.mem_held_hold hb, h.held_eq_nil, Option.some.injEq]
    simp [eq_comm]
  have htarget : (v.layout.hold i).target = Layout.dragTarget := by
    rw [Layout.hold, if_pos hi]
  have hmirrors : (v.layout.hold i).Mirrors v.graph := h.mirrors.move (.hold i)
  rw [hbegin]
  refine ⟨⟨?_, htarget⟩, ⟨hmirrors, fun hid => (hheld _).1 hid, fun _ => htarget, fun _ => rfl⟩⟩
  exact (Layout.held_eq_toList_iff hmirrors.nodup_ids).2 hheld

/-- With nothing held, no drag needs to be under way. -/
theorem Sane.idle (h : v.Sane busy) (hnil : v.layout.held = []) (busy' : Bool) : v.Sane busy' :=
  ⟨h.mirrors, h.held, h.target, fun hne => absurd hnil hne⟩

/-- With nothing held, the viewer may forget a drag. -/
theorem Sane.forget (h : v.Sane busy) (hnil : v.layout.held = []) (busy' : Bool) :
    { v with dragging := none }.Sane busy' where
  mirrors := h.mirrors
  held hid := by
    have hmem : _ ∈ v.layout.held := hid
    rw [hnil] at hmem
    contradiction
  target hsome := by contradiction
  busy hne := absurd hnil hne

theorem Sane.beginDrag (h : v.Sane busy) {g : Gesture} (hstart : busy = true → g.started = none)
    (hovered : Option Nat) :
    (v.beginDrag g hovered).Sane (busy || g.started.isSome) ∧
      (v.Coherent → (v.beginDrag g hovered).Coherent) := by
  have hsame : v.Sane (busy || g.started.isSome) :=
    ⟨h.mirrors, h.held, h.target, fun hne => by rw [h.busy hne]; rfl⟩
  cases hovered with
  | none =>
    have hbegin : v.beginDrag g none = v := by simp [Viewer.beginDrag]
    rw [hbegin]
    exact ⟨hsame, fun hv => hv⟩
  | some i =>
    by_cases hstarted : g.started = some .primary
    · have hidle : busy = false := by
        refine Bool.eq_false_iff.2 fun hbusy => ?_
        rw [hstart hbusy] at hstarted
        contradiction
      subst hidle
      cases hb : v.layout.bodies[i]? with
      | some b =>
        obtain ⟨hcoherent, hsane⟩ := h.begin hstarted hb
        rw [hstarted]
        exact ⟨hsane, fun _ => hcoherent⟩
      | none =>
        -- a number that no body has begins nothing, but the viewer forgets the drag
        have hhold : v.layout.hold i = v.layout := by
          rw [Layout.hold, if_neg (Nat.not_lt.2 (List.getElem?_eq_none_iff.1 hb))]
        have hbegin : v.beginDrag g (some i) = { v with dragging := none } := by
          simp only [Viewer.beginDrag, hstarted, hb, mapLayout, Option.map_none]
          exact congrArg (fun l => { v with session := { v.session with engine := l }, dragging := none })
            hhold
        rw [hbegin]
        refine ⟨h.forget h.held_eq_nil _, fun hv => ?_⟩
        have hnone : v.dragging = none := by
          have hlist := hv.held.symm.trans h.held_eq_nil
          cases hdragging : v.dragging with
          | none => rfl
          | some id => simp [hdragging] at hlist
        refine ⟨h.held_eq_nil, ?_⟩
        have htarget := hv.target
        rw [hnone] at htarget
        exact htarget
    · have hbegin : v.beginDrag g (some i) = v := by
        unfold Viewer.beginDrag
        split
        next hprimary _ => exact absurd hprimary hstarted
        next => rfl
      rw [hbegin]
      exact ⟨hsame, fun hv => hv⟩

/-- A drag whose node is gone is forgotten. -/
theorem continueDrag_of_gone {id : String} (hdragging : v.dragging = some id)
    (hi : v.layout.index? id = none) (r : Rect Float32) (g : Gesture) :
    v.continueDrag r g = { v with dragging := none } := by
  simp only [continueDrag, hdragging, hi]

/-- A drag whose node is shown goes on or ends. -/
theorem continueDrag_of_shown {id : String} {i : Nat} (hdragging : v.dragging = some id)
    (hi : v.layout.index? id = some i) (r : Rect Float32) (g : Gesture) :
    ∃ u, v.Rests u ∧ v.continueDrag r g =
      if g.stopped then { u.mapLayout (·.release i) with dragging := none } else u := by
  simp only [continueDrag, hdragging, hi]
  -- the body follows the pointer or not, which makes it no less held
  refine ⟨_, ?_, rfl⟩
  split
  next p _ _ =>
    refine ⟨rfl, rfl, ?_, rfl, fun h => h.move (.drag i (toWorld r v.pan v.zoom p))⟩
    exact Layout.held_of_grasps_eq (v.layout.grasps_moveHeld i (toWorld r v.pan v.zoom p))
  next => exact .refl v

theorem Sane.release (h : v.Sane busy) {id : String} {i : Nat} (hdragging : v.dragging = some id)
    (hi : v.layout.index? id = some i) (busy' : Bool) :
    { v.mapLayout (·.release i) with dragging := none }.Coherent ∧
      { v.mapLayout (·.release i) with dragging := none }.Sane busy' := by
  obtain ⟨b, hb, rfl⟩ := h.mirrors.exists_body hi
  have hnil : (v.layout.release i).held = [] := by
    refine List.eq_nil_iff_forall_not_mem.2 fun id hid => ?_
    obtain ⟨hheld, hne⟩ := (Layout.mem_held_release h.mirrors.nodup_ids hb).1 hid
    exact hne (Option.some.inj ((h.held hheld).symm.trans hdragging))
  refine ⟨⟨hnil, rfl⟩, ⟨h.mirrors.move (.release i), fun hid => ?_, fun hsome => ?_, fun hne => ?_⟩⟩
  · have hmem : _ ∈ (v.layout.release i).held := hid
    rw [hnil] at hmem
    contradiction
  · contradiction
  · exact absurd hnil hne

theorem Sane.continueDrag (h : v.Sane busy) (r : Rect Float32) (g : Gesture) :
    (v.continueDrag r g).Sane (busy && !g.stopped) ∧ (v.Coherent → (v.continueDrag r g).Coherent) := by
  cases hdragging : v.dragging with
  | none =>
    have hcontinue : v.continueDrag r g = v := by simp only [Viewer.continueDrag, hdragging]
    rw [hcontinue]
    exact ⟨h.idle (h.not_dragging hdragging) _, fun hv => hv⟩
  | some id =>
    cases hi : v.layout.index? id with
    | none =>
      have hgone : id ∉ v.graph.ids := h.mirrors.index?_eq_none_iff.1 hi
      have hnil : v.layout.held = [] := by
        refine List.eq_nil_iff_forall_not_mem.2 fun id' hid => ?_
        obtain rfl : id = id' := Option.some.inj (hdragging.symm.trans (h.held hid))
        exact hgone (h.mirrors.mem_ids_of_held hid)
      rw [continueDrag_of_gone hdragging hi]
      exact ⟨h.forget hnil _, fun hv => absurd (hv.shows h.mirrors id hdragging) hgone⟩
    | some i =>
      obtain ⟨u, hu, hcontinue⟩ := continueDrag_of_shown hdragging hi r g
      have hsane := hu.sane h
      rw [hcontinue]
      cases g.stopped with
      | true =>
        have hindex : u.layout.index? id = some i := by
          rw [hsane.mirrors.index, hu.graph]
          exact h.mirrors.index.1 hi
        obtain ⟨hcoherent, hrelease⟩ := hsane.release (hu.dragging.trans hdragging) hindex (busy && !true)
        exact ⟨hrelease, fun _ => hcoherent⟩
      | false =>
        rw [Bool.not_false, Bool.and_true]
        exact ⟨hsane, fun hv => hu.coherent hv⟩

/-- A drag that begins on a body restores the agreement. -/
theorem Sane.dragNode (h : v.Sane busy) {g : Gesture} (hstart : busy = true → g.started = none)
    (hstarted : g.started = some .primary) {i : Nat} (hi : i < v.layout.bodies.length)
    (r : Rect Float32) : (v.dragNode r g (some i)).Coherent := by
  have hidle : busy = false := by
    refine Bool.eq_false_iff.2 fun hbusy => ?_
    rw [hstart hbusy] at hstarted
    contradiction
  subst hidle
  obtain ⟨hcoherent, hsane⟩ := h.begin hstarted (List.getElem?_eq_getElem hi)
  exact (hsane.continueDrag r g).2 hcoherent

/-- A drag whose node is gone leaves the simulation warm. -/
theorem Sane.strands (h : v.Sane busy) (hgone : ¬ v.Shows) {g : Gesture} (hstarted : g.started = none)
    (r : Rect Float32) (hovered : Option Nat) :
    (v.dragNode r g hovered).dragging = none ∧
      (v.dragNode r g hovered).layout.target = Layout.dragTarget := by
  have hbegin : v.beginDrag g hovered = v := by simp only [Viewer.beginDrag, hstarted]
  simp only [Shows, not_forall, Option.mem_def] at hgone
  obtain ⟨id, hdragging, hid⟩ := hgone
  have hindex : v.layout.index? id = none := h.mirrors.index?_eq_none_iff.2 hid
  rw [Viewer.dragNode, hbegin, continueDrag_of_gone hdragging hindex]
  exact ⟨rfl, h.target (by rw [hdragging]; rfl)⟩

/-- However a gesture is handled, what holds in any case still holds, and the agreement is kept. -/
theorem Sane.handles (h : v.Sane busy) {o : Option Gesture}
    (hstart : ∀ g ∈ o, busy = true → g.started = none) (hh : Handles o v v') :
    v'.Sane (o.elim busy (·.leaves busy)) ∧ (v.Coherent → v'.Coherent) := by
  cases hh with
  | nothing => exact ⟨h, fun hv => hv⟩
  | drag _ r g hovered =>
    obtain ⟨hbegin, hkeeps⟩ := h.beginDrag (hstart g rfl) hovered
    obtain ⟨hcontinue, hkeeps'⟩ := hbegin.continueDrag r g
    exact ⟨hcontinue, fun hv => hkeeps' (hkeeps hv)⟩
  | missed hempty g =>
    have hnil : v.layout.held = [] := by
      refine List.eq_nil_iff_forall_not_mem.2 fun id hid => ?_
      have hmem := h.mirrors.mem_ids_of_held hid
      rw [Graph.ids, hempty] at hmem
      contradiction
    exact ⟨h.idle hnil _, fun hv => hv⟩

/-! ## Runs -/

theorem Sane.act (h : v.Sane busy) {a : Act} (hstart : ∀ g ∈ a.gesture?, busy = true → g.started = none) :
    (v.act a).value.Sane (a.gesture?.elim busy (·.leaves busy)) ∧
      (v.Coherent → (v.act a).value.Shows → (v.act a).value.Coherent) := by
  obtain ⟨v₁, v₂, v₃, v₄, h₁, h₂, h₃, h₄, hact⟩ := v.exists_handles_answers a
  obtain ⟨hsane, hkeeps⟩ := (h₁.sane h).handles hstart h₂
  have hsane₃ := h₃.sane hsane
  refine ⟨hact.sane (hsane₃.answers h₄), fun hv hshows => hact.coherent ?_⟩
  have hv₃ : v₃.Coherent := h₃.coherent (hkeeps (h₁.coherent hv))
  exact hv₃.answers hsane₃.mirrors h₄ (hact.shows.1 hshows)

/-- What an orderly run of acts asks of its first act and leaves to the others. -/
theorem orderly_filterMap_cons {a : Act} {acts : List Act}
    (h : Gesture.Orderly busy ((a :: acts).filterMap Act.gesture?)) :
    (∀ g ∈ a.gesture?, busy = true → g.started = none) ∧
      Gesture.Orderly (a.gesture?.elim busy (·.leaves busy)) (acts.filterMap Act.gesture?) := by
  cases hg : a.gesture? with
  | none =>
    rw [List.filterMap_cons_none hg] at h
    exact ⟨by simp, h⟩
  | some g =>
    rw [List.filterMap_cons_some hg] at h
    exact ⟨by simpa using h.1, h.2⟩

theorem Sane.run (acts : List Act) (h : v.Sane busy)
    (ho : Gesture.Orderly busy (acts.filterMap Act.gesture?)) :
    (acts.foldlM Viewer.act v).value.Sane ((acts.filterMap Act.gesture?).foldl Gesture.leaves busy) := by
  induction acts generalizing v busy with
  | nil => exact h
  | cons a acts ih =>
    obtain ⟨hstart, hrest⟩ := orderly_filterMap_cons ho
    have hnext := ih (h.act hstart).1 hrest
    cases hg : a.gesture? with
    | none =>
      rw [List.filterMap_cons_none hg]
      rwa [hg] at hnext
    | some g =>
      rw [List.filterMap_cons_some hg]
      rwa [hg] at hnext

/-- A run keeps the agreement if the dragged node is shown behind every act. -/
theorem Coherent.run (acts : List Act) (hv : v.Coherent) (h : v.Sane busy)
    (ho : Gesture.Orderly busy (acts.filterMap Act.gesture?))
    (hshows : ∀ pre, pre <+: acts → (pre.foldlM act v).value.Shows) :
    (acts.foldlM act v).value.Coherent := by
  induction acts generalizing v busy with
  | nil => exact hv
  | cons a acts ih =>
    obtain ⟨hstart, hrest⟩ := orderly_filterMap_cons ho
    obtain ⟨hsane, hkeeps⟩ := h.act hstart
    have hfirst : (v.act a).value.Shows := by
      have hone := hshows [a] (by simp)
      simpa using hone
    refine ih (hkeeps hv hfirst) hsane hrest fun pre hpre => ?_
    exact hshows (a :: pre) (List.cons_prefix_cons.2 ⟨rfl, hpre⟩)

theorem value_play (g : Graph) (config : SimConfig) (acts : List Act) :
    (play g config acts).value = (acts.foldlM act (ofGraph g config).value).value := by
  rw [play, Logged.value_bind]

theorem coherent_ofGraph (g : Graph) (config : SimConfig) :
    (ofGraph g config).value.Coherent ∧ (ofGraph g config).value.Sane false := by
  let blank : Session Layout := { graph := g, engine := Layout.empty, config := config }
  have hmirrors := blank.mirrors_advance ({}, g) g.ids
  have hnil : (blank.advance ({}, g) g.ids).engine.held = [] := by
    refine List.eq_nil_iff_forall_not_mem.2 fun id hid => ?_
    rw [Session.advance, Session.held_transition] at hid
    have hids : (Layout.empty.bodies.map (·.id)).Nodup := List.nodup_nil
    have hempty : id ∈ Layout.empty.held := ((Layout.mem_held_render hids).1 hid).2
    contradiction
  have htarget : (blank.advance ({}, g) g.ids).engine.target = 0.0 := by
    rw [Session.advance, Session.engine_transition]
    exact Layout.target_foldl_place _ _ _
  refine ⟨⟨hnil, htarget⟩, ⟨hmirrors, fun hid => ?_, fun hsome => ?_, fun hne => absurd hnil hne⟩⟩
  · have hmem : _ ∈ (blank.advance ({}, g) g.ids).engine.held := hid
    rw [hnil] at hmem
    contradiction
  · contradiction

/-- At any point of a run in which drags begin one after the other, nothing is held but the dragged node,
and the simulation is kept warm while there is one. The converse, that the dragged node is held and the
simulation cools down without one, holds throughout a run exactly if the dragged node is shown
throughout. A drag that begins on a body restores it; a drag whose node is gone is given up with the
simulation still warm. -/
theorem drags_play (g : Graph) (config : SimConfig) (acts : List Act)
    (h : Gesture.Orderly false (acts.filterMap Act.gesture?)) :
    let v := (play g config acts).value
    (v.layout.held ⊆ v.dragging.toList ∧ (v.dragging.isSome → v.layout.target = Layout.dragTarget)) ∧
      ((∀ pre, pre <+: acts → (play g config pre).value.Coherent) ↔
        ∀ pre, pre <+: acts → (play g config pre).value.Shows) ∧
      (∀ r gesture i, i < v.layout.bodies.length → gesture.started = some .primary →
        Gesture.Orderly false ((acts ++ [Act.stage (.drag r gesture (some i))]).filterMap Act.gesture?) →
        (v.dragNode r gesture (some i)).Coherent) ∧
      ∀ r gesture hovered, ¬ v.Shows → gesture.started = none →
        (v.dragNode r gesture hovered).dragging = none ∧
          (v.dragNode r gesture hovered).layout.target = Layout.dragTarget := by
  intro v
  obtain ⟨hcoherent, hstart⟩ := coherent_ofGraph g config
  have hsane {pre : List Act} (hpre : pre <+: acts) :
      Gesture.Orderly false (pre.filterMap Act.gesture?) ∧ (play g config pre).value.Sane
        ((pre.filterMap Act.gesture?).foldl Gesture.leaves false) := by
    obtain ⟨rest, rfl⟩ := hpre
    rw [List.filterMap_append] at h
    have ho := (Gesture.orderly_append.1 h).1
    rw [value_play]
    exact ⟨ho, hstart.run pre ho⟩
  have hv := (hsane (List.prefix_refl acts)).2
  refine ⟨⟨fun id hid => ?_, hv.target⟩, ⟨fun hall pre hpre => ?_, fun hall pre hpre => ?_⟩, ?_, ?_⟩
  · exact Option.mem_toList.2 (hv.held hid)
  · exact (hall pre hpre).shows (hsane hpre).2.mirrors
  · rw [value_play]
    refine hcoherent.run pre hstart (hsane hpre).1 fun pre' hpre' => ?_
    rw [← value_play]
    exact hall pre' (hpre'.trans hpre)
  · intro r gesture i hi hstarted ho
    rw [List.filterMap_append] at ho
    have hbusy := (Gesture.orderly_append.1 ho).2.1
    exact hv.dragNode hbusy hstarted hi r
  · intro r gesture hovered hgone hstarted
    exact hv.strands hgone hstarted r hovered

/-- A node outside of every folder is dragged while the graph is folded and unfolded. -/
theorem drags_play_outside :
    let g : Graph :=
      { nodes := [{ id := "main.py", name := "main.py", kind := .root },
          { id := "a/x", name := "a/x", kind := .project }, { id := "a/y", name := "a/y", kind := .project }] }
    let acts : List Act :=
      [.stage (.drag ⟨0, 0, 100, 100⟩ { started := some .primary, dragged := some .primary } (some 0)),
        .stage (.intent .toggleGrouping), .stage (.drag ⟨0, 0, 100, 100⟩ { dragged := some .primary } none),
        .stage (.intent .toggleGrouping), .stage (.drag ⟨0, 0, 100, 100⟩ { stopped := true } none)]
    Gesture.Orderly false (acts.filterMap Act.gesture?) ∧
      ∀ pre, pre <+: acts → (play g {} pre).value.Coherent := by
  intro g acts
  have horderly : Gesture.Orderly false (acts.filterMap Act.gesture?) := by decide
  refine ⟨horderly, (drags_play g {} acts horderly).2.1.2 ?_⟩
  have hshows : ∀ pre ∈ acts.inits, (play g {} pre).value.Shows := by decide +kernel
  intro pre hpre
  exact hshows pre ((List.mem_inits pre acts).2 hpre)

/-- A dragged node is folded away. The drag is given up and has ended, and the simulation stays warm. -/
theorem not_coherent_play_folded :
    let g : Graph :=
      { nodes := [{ id := "a/x", name := "a/x", kind := .project },
          { id := "a/y", name := "a/y", kind := .project }] }
    let acts : List Act :=
      [.stage (.drag ⟨0, 0, 100, 100⟩ { started := some .primary, dragged := some .primary } (some 0)),
        .stage (.intent .toggleGrouping), .stage (.drag ⟨0, 0, 100, 100⟩ { dragged := some .primary } none),
        .stage (.drag ⟨0, 0, 100, 100⟩ { stopped := true } none)]
    let v := (play g {} acts).value
    Gesture.Orderly false (acts.filterMap Act.gesture?) ∧ v.dragging = none ∧
      v.layout.target = Layout.dragTarget ∧ ¬ v.Coherent := by
  intro g acts v
  have hdragging : v.dragging = none := by decide +kernel
  have htarget : v.layout.target = Layout.dragTarget := by decide +kernel
  refine ⟨by decide, hdragging, htarget, fun h => ?_⟩
  have hcold := h.target
  rw [htarget, hdragging] at hcold
  exact absurd hcold (by decide)

end Viewer

end ImportAtlas
