-- SUMMARY: The selected node is always one that is shown.
import ImportAtlas.Proofs.Grouping.Soundness
import ImportAtlas.Proofs.Session.Restoring
import ImportAtlas.Proofs.Viewer.Dragging
import ImportAtlas.Window.Basic

/-! # The selection

A node is selected by a click on the canvas, in the list of groups, or in the details of its
neighbours. A transition may hide it again. The two buttons for grouping look whether it is still
shown, and the click that folds or unfolds a group selects nothing. What the details offer is an end of
a link, so the selection stays visible only if no link that is ever shown dangles; that in turn follows
from the links of the loaded graph. -/

namespace ImportAtlas

theorem Graph.contains_iff_mem_ids {g : Graph} {id : String} : g.contains id = true ↔ id ∈ g.ids := by
  simp [contains, ids]

/-! ## Links that lead from node to node -/

namespace Grouping

/-- A grouping and a view from which no intent leads to a dangling link: nothing was grouped so far and
the links of the view resolve, or those of the loaded graph do and the view is sound for it. -/
inductive Anchored : Grouping × Graph → Prop where
  | fresh {view : Graph} (h : ∀ l ∈ view.links, (view.resolve? l).isSome) : Anchored ({}, view)
  | loaded {g view : Graph} {t : Grouping} (h : Loaded g.detached t)
      (hg : ∀ l ∈ g.links, (g.resolve? l).isSome) (hview : g.Sound view) : Anchored (t, view)

namespace Anchored

variable {p : Grouping × Graph}

theorem ends_mem (h : Anchored p) {l : Link} (hl : l ∈ p.2.links) :
    l.source ∈ p.2.ids ∧ l.target ∈ p.2.ids := by
  cases h with
  | fresh h =>
    obtain ⟨⟨s, t⟩, hst⟩ := Option.isSome_iff_exists.mp (h l hl)
    obtain ⟨hs, ht⟩ := Graph.resolve?_eq_some_iff.mp hst
    exact ⟨Graph.mem_ids_of_node? hs, Graph.mem_ids_of_node? ht⟩
  | loaded _ _ hview => exact ⟨(hview l hl).source_mem, (hview l hl).target_mem⟩

/-- Before anything was grouped a click changes nothing, or folds a graph that is still empty. -/
theorem toggle_fresh {view : Graph} (h : ∀ l ∈ view.links, (view.resolve? l).isSome) (id : String) :
    Anchored (({} : Grouping).answer view (.toggle id)) := by
  cases hnode : view.node? id with
  | none => simpa [answer, toggle, hnode] using fresh h
  | some n =>
    cases hfold : n.fold with
    | none => simpa [answer, toggle, hnode, hfold] using fresh h
    | some f =>
      cases hexp : f.expanded with
      | true =>
        rw [answer_toggle_fresh hnode hfold hexp]
        exact fresh (by simp)
      | false => simpa [answer, toggle, hnode, hfold, hexp, Groups.get?] using fresh h

theorem start {g : Graph} (hg : ∀ l ∈ g.links, (g.resolve? l).isSome) : Anchored (Grouping.start g) :=
  .loaded (loaded_start g) hg (Graph.sound_detached_iff.mp (Graph.sound_folded g.detached))

theorem answer_loaded {g view : Graph} {t : Grouping} (h : Loaded g.detached t)
    (hg : ∀ l ∈ g.links, (g.resolve? l).isSome) (hview : g.Sound view) (r : Request) :
    Anchored (t.answer view r) := by
  have hrestored : g.detached.Sound g.detached.detached := by
    rw [Graph.detached_detached, Graph.sound_detached_iff]
    exact Graph.sound_detached hg
  have hsound := h.sound_answer (Graph.sound_detached_iff.mpr hview) r fun _ => hrestored
  exact .loaded (h.loaded_answer view r) hg (Graph.sound_detached_iff.mp hsound)

theorem respond (h : Anchored p) (i : Session.Intent) : Anchored (i.respond p) := by
  cases h with
  | fresh h =>
    cases i with
    | toggleGrouping => exact start h
    | click id => exact toggle_fresh h id
    | collapse => exact fresh h
    | setConfig config => exact fresh h
    | setCenter center => exact fresh h
    | beginFrame => exact fresh h
  | @loaded g view t h hg hview =>
    cases hr : i.request? t.active with
    | none =>
      rw [Session.Intent.respond, hr]
      exact .loaded h hg hview
    | some r =>
      rw [Session.Intent.respond, hr]
      exact answer_loaded h hg hview r

end Anchored

end Grouping

/-! ## What the panels offer -/

namespace Panel

/-- Every node that the widgets offer to select is in the graph. -/
def Offers (g : Graph) (ws : List Widget) : Prop :=
  ∀ w ∈ ws, ∀ id, w.intent = some (.select id) → id ∈ g.ids

variable {g : Graph} {v : Viewer}

@[simp] theorem offers_nil : Offers g [] := by simp [Offers]

@[simp] theorem offers_cons {w : Widget} {ws : List Widget} :
    Offers g (w :: ws) ↔ (∀ id, w.intent = some (.select id) → id ∈ g.ids) ∧ Offers g ws := by
  simp [Offers]

@[simp] theorem offers_append {ws ws' : List Widget} :
    Offers g (ws ++ ws') ↔ Offers g ws ∧ Offers g ws' := by
  simp [Offers, or_imp, forall_and]

theorem offers_map {α : Type} {f : α → Widget} {xs : List α}
    (h : ∀ x ∈ xs, ∀ id, (f x).intent = some (.select id) → id ∈ g.ids) : Offers g (xs.map f) := by
  simpa [Offers] using h

@[simp] theorem offers_labels {α : Type} (f : α → String) (xs : List α) :
    Offers g (xs.map fun x => Widget.label (f x)) :=
  offers_map (by simp [Widget.label])

theorem offers_hideable {header : String} {isOpen : Bool} {content : List Widget}
    (h : Offers g content) : Offers g (Widget.hideable header isOpen content) := by
  cases isOpen <;> simp [Widget.hideable, Widget.button, h]

theorem offers_groupList (v : Viewer) : Offers v.graph (groupList v) := by
  intro w hw id hid
  obtain ⟨G, -, hw⟩ := List.mem_flatMap.mp hw
  rcases List.mem_pair.mp hw with rfl | rfl
  · obtain ⟨hcontains, hselect⟩ := Option.ite_none_right_eq_some.mp hid
    obtain rfl : G.nodeId = id := by simpa using hselect
    exact Graph.contains_iff_mem_ids.mp hcontains
  · simp [Widget.label] at hid

theorem offers_controls (v : Viewer) (isOpen : String → Bool → Bool) :
    Offers v.graph (controls v isOpen) := by
  have hknobs : Offers v.graph (Knob.all.map fun k => { text := k.label, knob := some k : Widget }) :=
    offers_map (by simp)
  have hgroups := offers_groupList v
  simp only [controls, offers_append, offers_cons]
  refine ⟨⟨⟨?_, offers_hideable hknobs⟩, ?_, offers_labels _ _⟩, ?_⟩
  · simp [Widget.label, Widget.button]
  · simp [Widget.label]
  · split
    next => exact offers_hideable hgroups
    next => exact offers_nil

/-- Neighbours come from links. -/
theorem mem_ids_of_mem_dependencies (hg : ∀ l ∈ g.links, l.source ∈ g.ids ∧ l.target ∈ g.ids)
    {id : String} {r : Relation} (hr : r ∈ dependencies g id) : r.id ∈ g.ids := by
  rw [dependencies, Relation.sort, List.mem_mergeSort] at hr
  obtain ⟨l, hl, rfl⟩ := List.mem_map.mp hr
  exact (hg l (List.mem_of_mem_filter hl)).2

theorem mem_ids_of_mem_dependents (hg : ∀ l ∈ g.links, l.source ∈ g.ids ∧ l.target ∈ g.ids)
    {id : String} {r : Relation} (hr : r ∈ dependents g id) : r.id ∈ g.ids := by
  rw [dependents, Relation.sort, List.mem_mergeSort] at hr
  obtain ⟨l, hl, rfl⟩ := List.mem_map.mp hr
  exact (hg l (List.mem_of_mem_filter hl)).1

theorem offers_relations {title : String} {rs : List Relation} (h : ∀ r ∈ rs, r.id ∈ g.ids) :
    Offers g (relations title rs) := by
  have hrows : Offers g (rs.map fun r => Widget.button r.text (.select r.id)) := by
    refine offers_map fun r hr id hid => ?_
    obtain rfl : r.id = id := by simpa [Widget.button] using hid
    exact h r hr
  rw [relations, offers_cons]
  refine ⟨by simp [Widget.label], ?_⟩
  split
  next => simp [Widget.label]
  next => exact hrows

theorem offers_nodeDetails (hg : ∀ l ∈ g.links, l.source ∈ g.ids ∧ l.target ∈ g.ids) (id : String)
    (n : Node) (isOpen : String → Bool → Bool) : Offers g (nodeDetails g id n isOpen) := by
  simp only [nodeDetails, offers_append]
  refine ⟨⟨⟨by simp [Widget.label], ?_⟩, offers_relations ?_⟩, offers_relations ?_⟩
  · split
    next f _ =>
      rw [foldDetails, offers_append]
      exact ⟨by simp [Widget.label, Widget.button], offers_hideable (offers_labels (fun member => member) _)⟩
    next => exact offers_nil
  · intro r hr
    exact mem_ids_of_mem_dependencies hg hr
  · intro r hr
    exact mem_ids_of_mem_dependents hg hr

theorem offers_details (v : Viewer) (isOpen : String → Bool → Bool)
    (hg : ∀ l ∈ v.graph.links, l.source ∈ v.graph.ids ∧ l.target ∈ v.graph.ids) :
    Offers v.graph (details v isOpen) := by
  rw [details, offers_cons]
  refine ⟨by simp [Widget.label], ?_⟩
  split
  next => simp [Widget.label]
  next id _ =>
    split
    next => simp [Widget.label]
    next n _ => exact offers_nodeDetails hg id n isOpen

end Panel

namespace Viewer

/-! ## What does not concern the selection -/

/-- The other viewer shows the same graph and has the same selection. -/
structure Stays (v v' : Viewer) : Prop where
  shown : v'.session.shown = v.session.shown
  selected : v'.selected = v.selected
  mirrors (h : v.layout.Mirrors v.graph) : v'.layout.Mirrors v.graph

namespace Stays

variable {v v' v'' : Viewer}

theorem graph (h : Stays v v') : v'.graph = v.graph := congrArg Prod.snd h.shown

theorem of_session (hselected : v'.selected = v.selected) (hsession : v'.session = v.session) :
    Stays v v' where
  shown := congrArg Session.shown hsession
  selected := hselected
  mirrors h := by
    rw [layout, hsession]
    exact h

theorem of_move (hselected : v'.selected = v.selected) (m : Layout.Move)
    (hsession : v'.session = v.session.act (.move m)) : Stays v v' where
  shown := by
    rw [hsession]
    rfl
  selected := hselected
  mirrors h := by
    rw [layout, hsession]
    exact h.move m

theorem refl (v : Viewer) : Stays v v := of_session rfl rfl

theorem trans (h : Stays v v') (h' : Stays v' v'') : Stays v v'' where
  shown := h'.shown.trans h.shown
  selected := h'.selected.trans h.selected
  mirrors hm := h.graph ▸ h'.mirrors (h.graph.symm ▸ h.mirrors hm)

end Stays

section
variable (v : Viewer) (r : Rect Float32) (g : Gesture)

theorem stays_beginFrame : v.Stays v.beginFrame :=
  ⟨v.session.shown_beginFrame, rfl, v.rests_beginFrame.mirrors⟩

theorem stays_zoomBy : v.Stays (v.zoomBy r g) := by
  unfold zoomBy
  split
  next => exact .refl v
  next => exact .of_session rfl rfl

theorem stays_approach : v.Stays (v.approach r g) := by
  have hcenter (v : Viewer) : v.Stays (v.updateCenter r) := ⟨rfl, rfl, fun h => h⟩
  exact (v.stays_beginFrame.trans (stays_zoomBy _ r g)).trans (hcenter _)

theorem stays_beginDrag (hovered : Option Nat) : v.Stays (v.beginDrag g hovered) := by
  unfold beginDrag
  split
  next _ i _ => exact .of_move rfl (.hold i) rfl
  next => exact .refl v

theorem stays_continueDrag : v.Stays (v.continueDrag r g) := by
  unfold continueDrag
  split
  next => exact .refl v
  next =>
    split
    next => exact .of_session rfl rfl
    next i _ =>
      -- the node has followed the pointer or not, and is let go or not
      have hrelease (u : Viewer) :
          u.Stays { u.mapLayout (·.release i) with dragging := none } := .of_move rfl (.release i) rfl
      have hdrag (p : Vec Float32) : v.Stays (v.mapLayout (·.moveHeld i (toWorld r v.pan v.zoom p))) :=
        .of_move rfl (.drag i (toWorld r v.pan v.zoom p)) rfl
      dsimp only
      split
      next =>
        split
        next p _ _ => exact (hdrag p).trans (hrelease _)
        next => exact hrelease v
      next =>
        split
        next p _ _ => exact hdrag p
        next => exact .refl v

theorem stays_panBy : v.Stays (v.panBy g) := by
  unfold panBy
  split
  next => exact .refl v
  next =>
    split
    next => exact .refl v
    next => exact .of_session rfl rfl
  next => exact .of_session rfl rfl

theorem stays_tick : v.Stays v.tick := by
  unfold tick
  split
  next => exact .of_move rfl .tick rfl
  next => exact .refl v

theorem stays_matching : v.Stays v.matching.1 := by
  unfold matching
  split
  next => exact .refl v
  next =>
    split
    next => exact .refl v
    next => exact .of_session rfl rfl

/-- Nothing in a frame concerns the selection, up to the click. -/
theorem stays_outcome : v.Stays (v.outcome r g) := by
  have htally (v : Viewer) : v.Stays (v.tally r) := .of_session rfl rfl
  have hdrag : v.Stays ((v.approach r g).dragNode r g (v.underPointer r g)) :=
    ((v.stays_approach r g).trans (stays_beginDrag _ g _)).trans (stays_continueDrag _ r g)
  rw [outcome, pause]
  exact (((hdrag.trans (stays_panBy _ g)).trans (stays_tick _)).trans (stays_matching _)).trans
    (htally _)

end

/-! ## The selection is shown -/

/-- The selected node is shown, and no link that is or will be shown dangles. -/
structure Settled (v : Viewer) : Prop where
  mirrors : v.layout.Mirrors v.graph
  anchored : Grouping.Anchored v.session.shown
  selected : ∀ id ∈ v.selected, id ∈ v.graph.ids

theorem settled_ofGraph {g : Graph} (hg : ∀ l ∈ g.links, (g.resolve? l).isSome) (config : SimConfig) :
    (ofGraph g config).value.Settled where
  mirrors := Session.mirrors_play g Layout.empty config []
  anchored := by
    have hshown : (ofGraph g config).value.session.shown = ({}, g) := Session.shown_ofGraph g _ config
    rw [hshown]
    exact .fresh hg
  selected := by
    have hnone : (ofGraph g config).value.selected = none := rfl
    simp [hnone]

theorem syncSelection_eq (v : Viewer) :
    v.syncSelection = v.select (v.selected.filter v.graph.contains) := by
  unfold syncSelection
  split
  next id hselected =>
    rw [hselected, Option.filter_some]
    split
    next => rw [← hselected]; rfl
    next => rfl
  next hselected => rw [hselected, Option.filter_none, ← hselected]; rfl

theorem perform_click {v : Viewer} {id : String}
    (hid : (Session.Intent.click id).transits v.session.shown = false) :
    v.session.perform (.click id) = v.session := by
  rw [Session.perform_of_not_transits hid]
  rfl

namespace Settled

variable {v v' : Viewer}

theorem stays (h : v.Settled) (hv : v.Stays v') : v'.Settled where
  mirrors := hv.graph.symm ▸ hv.mirrors h.mirrors
  anchored := hv.shown.symm ▸ h.anchored
  selected := by
    rw [hv.selected, hv.graph]
    exact h.selected

theorem select (h : v.Settled) {id : Option String} (hid : ∀ x ∈ id, x ∈ v.graph.ids) :
    (v.select id).Settled :=
  ⟨h.mirrors, h.anchored, hid⟩

/-- After an intent only the selection is to be looked at. -/
theorem perform (h : v.Settled) (i : Session.Intent) {id : Option String}
    (hid : ∀ x ∈ id, x ∈ (v.session.perform i).graph.ids) :
    ({ v with session := v.session.perform i }.select id).Settled where
  mirrors := Session.mirrors_perform h.mirrors i
  anchored := by
    have hshown : (v.session.perform i).shown = i.respond v.session.shown := v.session.shown_perform i
    exact hshown.symm ▸ h.anchored.respond i
  selected := hid

theorem syncSelection (h : v.Settled) (i : Session.Intent) :
    { v with session := v.session.perform i }.syncSelection.Settled := by
  rw [syncSelection_eq]
  refine h.perform i fun id hid => ?_
  exact Graph.contains_iff_mem_ids.mp (Option.mem_filter_iff.mp hid).2

theorem click (h : v.Settled) {id : Option String} (hid : ∀ x ∈ id, x ∈ v.graph.ids) :
    (v.click id).value.Settled := by
  cases id with
  | none => exact h.select hid
  | some id =>
    have hclick : (v.click (some id)).value = { v with session := v.session.perform (.click id) }.select
        (if (Session.Intent.click id).transits v.session.shown then none else some id) := by
      simp [Viewer.click, Session.value_click]
    rw [hclick]
    cases htransits : (Session.Intent.click id).transits v.session.shown with
    | true => exact h.perform _ (by simp)
    | false =>
      refine h.perform _ ?_
      rw [perform_click htransits]
      exact hid

theorem unfold (h : v.Settled) (id : String) : (Window.unfold v id).value.Settled := by
  have hunfold : (Window.unfold v id).value = { v with session := v.session.perform (.click id) }.select
      (if (Session.Intent.click id).transits v.session.shown then none else v.selected) := by
    cases htransits : (Session.Intent.click id).transits v.session.shown <;>
      simp [Window.unfold, Session.value_click, htransits, Viewer.select]
  rw [hunfold]
  cases htransits : (Session.Intent.click id).transits v.session.shown with
  | true => exact h.perform _ (by simp)
  | false =>
    refine h.perform _ ?_
    rw [perform_click htransits]
    exact h.selected

/-- An intent is harmless if what it selects is shown. -/
theorem act (h : v.Settled) {i : Intent} (hi : ∀ id, i = .select id → id ∈ v.graph.ids) :
    (Window.act v i).value.Settled := by
  cases i with
  | toggleGrouping => exact h.syncSelection .toggleGrouping
  | collapse => exact h.syncSelection .collapse
  | turn k x => exact h.perform (.setConfig (k.turn x v.config)) h.selected
  | select id =>
    refine h.select ?_
    rintro x ⟨⟩
    exact hi id rfl
  | unfold id => exact h.unfold id
  | resetView => exact h.stays (.of_session rfl rfl)
  | toggleLive => exact h.stays (.of_session rfl rfl)
  | reload => exact h
  | retry => exact h
  | flip header => exact h

/-- The bodies on the canvas are nodes of the graph. -/
theorem clickAt (h : v.Settled) (g : Gesture) (hovered : Option Nat) :
    (v.clickAt g hovered).value.Settled := by
  unfold Viewer.clickAt
  split
  next =>
    refine h.click fun id hid => ?_
    obtain ⟨i, -, hbody⟩ := Option.bind_eq_some_iff.mp hid
    obtain ⟨b, hb, rfl⟩ := Option.map_eq_some_iff.mp hbody
    exact List.mem_eraseDups.mp (h.mirrors.ids ▸ List.mem_map_of_mem (List.mem_of_getElem? hb))
  next => exact h

theorem frame (h : v.Settled) (r : Rect Float32) (g : Gesture) : (v.frame r g).value.1.Settled := by
  rw [frame_eq]
  split
  next => exact h.stays (v.stays_approach r g)
  next => exact (h.stays (v.stays_outcome r g)).clickAt g _

end Settled

/-! ## Runs -/

/-- Something that the user does to a viewer. -/
inductive Touch where
  /-- a click in the panels: on the widget at a place, where `isOpen` tells which headers are open -/
  | press (isOpen : String → Bool → Bool) (place : Nat)
  | turn (k : Knob) (value : Float32)
  | type (text : String)
  /-- a click on the canvas: on the body at a place, or on nothing -/
  | click (place : Option Nat)
  /-- a whole frame, in which the pointer does anything -/
  | frame (r : Rect Float32) (g : Gesture)

/-- The widgets beside the canvas. -/
def panels (v : Viewer) (isOpen : String → Bool → Bool) : List Widget :=
  Panel.controls v isOpen ++ Panel.details v isOpen

/-- The viewer after the user did something. -/
def touch (v : Viewer) : Touch → Viewer
  | .press isOpen place =>
    (((v.panels isOpen)[place]?.bind (·.intent)).map fun i => (Window.act v i).value).getD v
  | .turn k value => (Window.act v (.turn k value)).value
  | .type text => { v with search := text }
  | .click place => (v.clickAt { clicked := some .primary } place).value
  | .frame r g => (v.frame r g).value.1

/-- A viewer that was given a graph and then used. -/
def touched (g : Graph) (config : SimConfig) (ts : List Touch) : Viewer :=
  ts.foldl touch (ofGraph g config).value

theorem Settled.press {v : Viewer} (h : v.Settled) (isOpen : String → Bool → Bool) (place : Nat) :
    (v.touch (.press isOpen place)).Settled := by
  have hoffers : Panel.Offers v.graph (v.panels isOpen) := by
    rw [panels, Panel.offers_append]
    exact ⟨Panel.offers_controls v isOpen, Panel.offers_details v isOpen fun l hl => h.anchored.ends_mem hl⟩
  rw [touch]
  cases hi : (v.panels isOpen)[place]?.bind (·.intent) with
  | none => exact h
  | some i =>
    obtain ⟨w, hw, hintent⟩ := Option.bind_eq_some_iff.mp hi
    refine h.act fun id hid => ?_
    exact hoffers w (List.mem_of_getElem? hw) id (hid ▸ hintent)

theorem Settled.touch {v : Viewer} (h : v.Settled) (t : Touch) : (v.touch t).Settled := by
  cases t with
  | press isOpen place => exact h.press isOpen place
  | turn k value => exact h.act (by simp)
  | type text => exact h.stays (.of_session rfl rfl)
  | click place => exact h.clickAt _ place
  | frame r g => exact h.frame r g

theorem settled_touched {g : Graph} (hg : ∀ l ∈ g.links, (g.resolve? l).isSome) (config : SimConfig)
    (ts : List Touch) : (touched g config ts).Settled := by
  induction ts using List.reverseRecOn with
  | nil => exact settled_ofGraph hg config
  | append_singleton ts t ih =>
    rw [touched, List.foldl_concat]
    exact ih.touch t

/-- A plain node has a body, and a click there selects it. -/
theorem exists_click_selects {v : Viewer} (h : v.layout.Mirrors v.graph) {id : String} {n : Node}
    (hid : v.graph.node? id = some n) (hplain : n.isGroup = false) :
    ∃ i, (v.touch (.click (some i))).selected = some id := by
  have hmem : id ∈ v.layout.bodies.map (·.id) :=
    h.ids ▸ List.mem_eraseDups.mpr (Graph.mem_ids_of_node? hid)
  obtain ⟨i, hi⟩ := List.mem_iff_getElem?.mp hmem
  rw [List.getElem?_map] at hi
  have htransits : (Session.Intent.click id).transits v.session.shown = false := by
    have hid' : v.session.graph.node? id = some n := hid
    simp [Session.Intent.transits, Session.shown, hid', hplain]
  have htouch : v.touch (.click (some i)) = v.select (some id) := by
    simp [touch, clickAt, hi, click, Session.value_click, htransits, perform_click htransits]
  exact ⟨i, by rw [htouch]; rfl⟩

/-- Whatever the user does, the selection is empty or a node of the graph that is shown, and every
plain node of that graph can be selected. -/
theorem selected_shown (g : Graph) (config : SimConfig) (ts : List Touch)
    (hg : ∀ l ∈ g.links, (g.resolve? l).isSome) :
    let v := touched g config ts
    (v.selected = none ∨ ∃ id ∈ v.graph.ids, v.selected = some id) ∧
      ∀ id n, v.graph.node? id = some n → n.isGroup = false →
        ∃ i, (v.touch (.click (some i))).selected = some id := by
  intro v
  have hv : v.Settled := settled_touched hg config ts
  constructor
  · cases hselected : v.selected with
    | none => exact .inl rfl
    | some id => exact .inr ⟨id, hv.selected id hselected, rfl⟩
  · intro id n hid hplain
    exact exists_click_selects hv.mirrors hid hplain

/-- A graph with a repeated id and two nodes that pass for groups. A node is selected and hidden by
grouping; the group is chosen from the list and unfolded; a member is selected and hidden by folding; the
group is chosen again, one that depends on it is followed, and the graph is restored; at last a
dependency is followed. -/
theorem selected_shown_impostor :
    let g : Graph :=
      { nodes := [⟨"x", "a/x", .project, none⟩, ⟨"y", "a/y", .project, none⟩,
          ⟨"y", "c", .project, some ⟨true, "a", []⟩⟩, ⟨"p", "z/p", .group, some ⟨false, "a", ["q"]⟩⟩]
        links := [.between "x" "y", .between "p" "x", .between "p" "y"] }
    let press : Nat → Touch := .press fun _ _ => true
    let v := touched g {} [.click (some 0), press 3, press 18, press 26, .click (some 2), press 4,
      press 18, press 33, press 3, .click none, .click (some 0), press 22]
    (∀ l ∈ g.links, (g.resolve? l).isSome) ∧
      (v.selected = none ∨ ∃ id ∈ v.graph.ids, v.selected = some id) ∧
      ∀ id n, v.graph.node? id = some n → n.isGroup = false →
        ∃ i, (v.touch (.click (some i))).selected = some id :=
  ⟨by decide, selected_shown _ _ _ (by decide)⟩

end Viewer

end ImportAtlas
