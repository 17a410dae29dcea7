-- SUMMARY: A search that is remembered is never out of date.
import ImportAtlas.Proofs.Session.Mirroring
import ImportAtlas.Proofs.Viewer.Stages

/-! # Searching

The viewer remembers its last search with the query and the number of the graph that was searched. The
number counts the graphs that the layout was given, and between two graphs no label changes. So as long as
the counter has not gone round, a search is remembered under the present number only if it was made on
the present labels. -/

namespace ImportAtlas

/-! ## Counting graphs -/

/-- How often a log says that a layout was given a graph. -/
def rebuilds (log : List Event) : Nat := log.countP (·.message == "layout graph rebuilt")

@[simp] theorem rebuilds_nil : rebuilds [] = 0 := rfl

@[simp] theorem rebuilds_append (log log' : List Event) :
    rebuilds (log ++ log') = rebuilds log + rebuilds log' := List.countP_append

@[simp] theorem rebuilds_cons (e : Event) (log : List Event) :
    rebuilds (e :: log) = rebuilds log + if e.message = "layout graph rebuilt" then 1 else 0 := by
  simp [rebuilds, List.countP_cons]

namespace Grouping

@[simp] theorem rebuilds_collapseAll (t : Grouping) : rebuilds t.collapseAll.events = 0 := by
  simp [collapseAll]

@[simp] theorem rebuilds_apply (t : Grouping) (g : Graph) : rebuilds (t.apply g).events = 0 := by
  have hcapture : rebuilds (t.store.capture g).events = 0 := by
    unfold Store.capture
    split <;> simp
  unfold apply
  split <;> simp [hcapture]

@[simp] theorem rebuilds_toggle (t : Grouping) (g : Graph) (id : String) :
    rebuilds (t.toggle g id).events = 0 := by
  cases hnode : g.node? id with
  | none => simp [toggle, hnode]
  | some n =>
    cases hfold : n.fold with
    | none => simp [toggle, hnode, hfold]
    | some f =>
      cases hexpanded : f.expanded with
      | true => simp [toggle, hnode, hfold, hexpanded, collapse]
      | false =>
        cases hgroup : t.groups.get? f.folder with
        | none => simp [toggle, hnode, hfold, hexpanded, hgroup]
        | some G => simp [toggle, hnode, hfold, hexpanded, hgroup, expand]

end Grouping

namespace Session

@[simp] theorem rebuilds_transition (s : Session Layout) (seeded : List String) :
    rebuilds (s.transition seeded).events = 1 := by
  simp [transition, Engine.render, Engine.start]

/-- An intent is written down as giving the layout a graph exactly if it makes a transition. -/
theorem rebuilds_carryOut (s : Session Layout) (i : Intent) :
    rebuilds (s.carryOut i).events = if i.transits s.shown then 1 else 0 := by
  cases i with
  | toggleGrouping =>
    cases hgrouped : s.isGrouped <;> simp [carryOut, toggleGrouping, hgrouped, Intent.transits]
  | click id =>
    have htransits : Intent.transits s.shown (.click id) =
        ((s.graph.node? id).map Node.isGroup).getD false := rfl
    rw [htransits]
    cases hgroup : ((s.graph.node? id).map Node.isGroup).getD false <;>
      simp [carryOut, click, hgroup, replace]
  | collapse =>
    have htransits : Intent.transits s.shown .collapse = s.isGrouped := rfl
    rw [htransits]
    cases hgrouped : s.isGrouped <;> simp [carryOut, collapse, hgrouped, replace]
  | setConfig config => simp [carryOut, setConfig, Engine.start, Intent.transits]
  | setCenter center => rfl
  | beginFrame => rfl

end Session

/-! ## Labels -/

namespace Layout

/-- The labels of the bodies. -/
def labels (l : Layout) : List String := l.bodies.map (·.label)

theorem labels_of_faces_eq {l l' : Layout} (h : l'.bodies.map Body.face = l.bodies.map Body.face) :
    l'.labels = l.labels := by
  have hlabels (l : Layout) : l.labels = (l.bodies.map Body.face).map (·.2.1) := by
    rw [List.map_map]
    rfl
  rw [hlabels, hlabels, h]

/-- The same graph is shown as before: neither its number nor a label has changed. -/
structure Keeps (l l' : Layout) : Prop where
  revision : l'.revision = l.revision
  labels : l'.labels = l.labels

theorem Keeps.refl (l : Layout) : l.Keeps l := ⟨rfl, rfl⟩

theorem Keeps.trans {l l' l'' : Layout} (h : l.Keeps l') (h' : l'.Keeps l'') : l.Keeps l'' :=
  ⟨h'.revision.trans h.revision, h'.labels.trans h.labels⟩

theorem keeps_move (l : Layout) (m : Move) : l.Keeps (l.move m) := by
  refine ⟨?_, labels_of_faces_eq (face_of_tags_eq (l.tags_move m))⟩
  cases m with
  | tick =>
    have hrevision := congrArg Layout.revision l.still_step
    exact hrevision
  | hold i =>
    simp only [move, hold]
    split <;> rfl
  | drag i p => rfl
  | release i => rfl
  | look r pan zoom => rfl

end Layout

namespace Session

theorem revision_foldl_place (l : Layout) (point : String → Point) (ids : List String) :
    (ids.foldl (fun l id => l.place id (point id)) l).revision = l.revision := by
  induction ids generalizing l with
  | nil => rfl
  | cons id ids ih => rw [List.foldl_cons, ih]; rfl

theorem revision_advance (s : Session Layout) (next : Grouping × Graph) (seeded : List String) :
    (s.advance next seeded).engine.revision = s.engine.revision + 1 := by
  rw [advance, engine_transition]
  exact revision_foldl_place ..

theorem keeps_attend (s : Session Layout) (i : Intent) : s.engine.Keeps (s.attend i).engine := by
  cases i with
  | toggleGrouping => exact .refl _
  | click id => exact .refl _
  | collapse => exact .refl _
  | setConfig config => exact ⟨rfl, rfl⟩
  | setCenter center => exact .refl _
  | beginFrame =>
    simp only [attend, beginFrame]
    split
    next => exact ⟨rfl, Layout.labels_of_faces_eq (Layout.faces_unpinAll s.engine)⟩
    next => exact .refl _

end Session

/-! ## Searches -/

namespace Viewer

theorem searchIn_eq (l : Layout) (query : String) :
    searchIn l query = (l.labels.zipIdx.filter fun (name, _) => isMatch query name).map (·.2) := by
  simp [searchIn, Layout.labels, List.zipIdx_map, List.filter_map, Function.comp_def]

/-- A search finds the positions of the bodies whose labels match. -/
theorem mem_searchIn {l : Layout} {query : String} {i : Nat} :
    i ∈ searchIn l query ↔ ∃ b, l.bodies[i]? = some b ∧ isMatch query b.label = true := by
  simp [searchIn, List.mem_zipIdx_iff_getElem?, and_comm]

-- ---------------------------------------------------------------------------
-- Drags
-- ---------------------------------------------------------------------------

theorem keeps_beginDrag (v : Viewer) (g : Gesture) (hovered : Option Nat) :
    v.layout.Keeps (v.beginDrag g hovered).layout := by
  unfold beginDrag
  split
  next _ i _ => exact v.layout.keeps_move (.hold i)
  next => exact .refl _

theorem keeps_continueDrag (v : Viewer) (r : Rect Float32) (g : Gesture) :
    v.layout.Keeps (v.continueDrag r g).layout := by
  unfold continueDrag
  split
  next => exact .refl _
  next =>
    split
    next => exact .refl _
    next i _ =>
      -- the body is let go or not, and has followed the pointer or not
      have hdrag (p : Vec Float32) : v.layout.Keeps (v.layout.moveHeld i (toWorld r v.pan v.zoom p)) :=
        v.layout.keeps_move (.drag i (toWorld r v.pan v.zoom p))
      dsimp only
      split
      next =>
        split
        next p _ _ => exact (hdrag p).trans (Layout.keeps_move _ (.release i))
        next => exact v.layout.keeps_move (.release i)
      next =>
        split
        next p _ _ => exact hdrag p
        next => exact .refl _

-- ---------------------------------------------------------------------------
-- Nothing but a search looks at the search remembered
-- ---------------------------------------------------------------------------

/-- The viewer with another search remembered. -/
def remember (v : Viewer) (c : Option SearchResult) : Viewer := { v with cache := c }

theorem zoomBy_remember (v : Viewer) (c : Option SearchResult) (r : Rect Float32) (g : Gesture) :
    (v.remember c).zoomBy r g = (v.zoomBy r g).remember c := by
  unfold zoomBy
  split <;> rfl

theorem dragNode_remember (v : Viewer) (c : Option SearchResult) (r : Rect Float32) (g : Gesture)
    (hovered : Option Nat) :
    (v.remember c).dragNode r g hovered = (v.dragNode r g hovered).remember c := by
  have hbegin : (v.remember c).beginDrag g hovered = (v.beginDrag g hovered).remember c := by
    unfold beginDrag
    split <;> rfl
  have hcontinue (v : Viewer) : (v.remember c).continueDrag r g = (v.continueDrag r g).remember c := by
    have hdragging : (v.remember c).dragging = v.dragging := rfl
    have hlayout : (v.remember c).layout = v.layout := rfl
    simp only [continueDrag, hdragging, hlayout]
    cases v.dragging with
    | none => rfl
    | some id =>
      cases hindex : v.layout.index? id with
      | none => simp only [hindex]; rfl
      | some i =>
        simp only [hindex]
        split <;> split <;> rfl
  rw [dragNode, hbegin, hcontinue, dragNode]

theorem panBy_remember (v : Viewer) (c : Option SearchResult) (g : Gesture) :
    (v.remember c).panBy g = (v.panBy g).remember c := by
  have hdragging : (v.remember c).dragging = v.dragging := rfl
  rw [panBy, panBy, hdragging]
  split
  next => rfl
  next => split <;> rfl
  next => rfl

theorem tick_remember (v : Viewer) (c : Option SearchResult) :
    (v.remember c).tick = v.tick.remember c := by
  have hlive : (v.remember c).live = v.live := rfl
  rw [tick, tick, hlive]
  split <;> rfl

-- ---------------------------------------------------------------------------
-- What is remembered
-- ---------------------------------------------------------------------------

/-- After `n` graphs the layout has the number `n`, and the search remembered was made under a number up
to that one; under that one, it is the search of the layout as it is. -/
structure Recalls (v : Viewer) (n : Nat) : Prop where
  revision : v.layout.revision = UInt64.ofNat n
  cache {r : SearchResult} (h : v.cache = some r) : ∃ k ≤ n, r.revision = UInt64.ofNat k ∧
    (k = n → r.found = searchIn v.layout r.query)

/-- What keeps the graph shown and the search remembered keeps them in accord. -/
theorem Recalls.congr {v v' : Viewer} {n : Nat} (h : v.Recalls n) (hkeeps : v.layout.Keeps v'.layout)
    (hcache : v'.cache = v.cache) : v'.Recalls n where
  revision := hkeeps.revision.trans h.revision
  cache hr := by
    obtain ⟨k, hk, hrevision, hfound⟩ := h.cache (hcache ▸ hr)
    refine ⟨k, hk, hrevision, fun hn => ?_⟩
    rw [hfound hn, searchIn_eq, searchIn_eq, hkeeps.labels]

/-- A new graph has a number that no search was made under. -/
theorem Recalls.next {v v' : Viewer} {n : Nat} (h : v.Recalls n)
    (hrevision : v'.layout.revision = v.layout.revision + 1) (hcache : v'.cache = v.cache) :
    v'.Recalls (n + 1) where
  revision := by rw [hrevision, h.revision, UInt64.ofNat_add]; rfl
  cache hr := by
    obtain ⟨k, hk, hrevision, -⟩ := h.cache (hcache ▸ hr)
    exact ⟨k, by omega, hrevision, by omega⟩

theorem Recalls.attend {v : Viewer} {n : Nat} (h : v.Recalls n) (i : Session.Intent) :
    (v.attend i).value.Recalls (n + rebuilds (v.attend i).events) := by
  have hsession : (v.attend i).value = { v with session := v.session.perform i } := by
    simp [Viewer.attend]
  have hlog : (v.attend i).events = (v.session.carryOut i).events := by simp [Viewer.attend]
  rw [hsession, hlog, Session.rebuilds_carryOut]
  cases hi : i.transits v.session.shown with
  | true =>
    refine h.next ?_ rfl
    exact (Session.perform_of_transits hi) ▸ v.session.revision_advance _ _
  | false =>
    refine h.congr ?_ rfl
    exact (Session.perform_of_not_transits hi) ▸ v.session.keeps_attend i

theorem Recalls.matching {v : Viewer} {n : Nat} (h : v.Recalls n) : v.matching.1.Recalls n := by
  unfold Viewer.matching
  split
  next => exact h
  next =>
    split
    next => exact h
    next =>
      refine ⟨h.revision, fun hr => ?_⟩
      obtain rfl := Option.some.inj hr
      exact ⟨n, Nat.le_refl n, h.revision, fun _ => rfl⟩

theorem Recalls.stage {v : Viewer} {n : Nat} (h : v.Recalls n) (s : Stage) :
    (v.stage s).value.Recalls (n + rebuilds (v.stage s).events) := by
  cases s with
  | type text => exact h.congr (.refl _) rfl
  | select id => exact h.congr (.refl _) rfl
  | setLive on => exact h.congr (.refl _) rfl
  | resetView => exact h.congr (.refl _) rfl
  | intent i => exact h.attend i
  | zoom r g =>
    have hzoom : v.layout.Keeps (v.zoomBy r g).layout := by
      unfold zoomBy
      split <;> exact .refl _
    have hcache := congrArg Viewer.cache (v.zoomBy_remember v.cache r g)
    exact h.congr hzoom hcache
  | drag r g hovered =>
    have hdrag : v.layout.Keeps (v.dragNode r g hovered).layout :=
      (v.keeps_beginDrag g hovered).trans (keeps_continueDrag _ r g)
    have hcache := congrArg Viewer.cache (v.dragNode_remember v.cache r g hovered)
    exact h.congr hdrag hcache
  | pan g =>
    have hpan : v.layout.Keeps (v.panBy g).layout := by
      unfold panBy
      split
      next => exact .refl _
      next => split <;> exact .refl _
      next => exact .refl _
    have hcache := congrArg Viewer.cache (v.panBy_remember v.cache g)
    exact h.congr hpan hcache
  | tick =>
    have htick : v.layout.Keeps v.tick.layout := by
      unfold tick
      split
      next => exact v.layout.keeps_move .tick
      next => exact .refl _
    have hcache := congrArg Viewer.cache (v.tick_remember v.cache)
    exact h.congr htick hcache
  | step => exact h.congr (v.layout.keeps_move .tick) rfl
  | find =>
    have hfind : v.stage .find = pure v.matching.1 := rfl
    rw [hfind, Logged.value_pure, Logged.events_pure, rebuilds_nil, Nat.add_zero]
    exact h.matching
  | tally r => exact h.congr (.refl _) rfl

theorem recalls_ofGraph (g : Graph) (config : SimConfig) :
    (ofGraph g config).value.Recalls (rebuilds (ofGraph g config).events) := by
  have hlog : rebuilds (ofGraph g config).events = 1 := by simp [ofGraph, Session.ofGraph]
  rw [hlog]
  have hlayout : (ofGraph g config).value.layout =
      (Session.ofGraph g Layout.empty config).value.engine := rfl
  refine ⟨?_, fun hr => ?_⟩
  · rw [hlayout, Session.ofGraph_eq_advance, Session.revision_advance]
    rfl
  · cases hr

theorem recalls_play (g : Graph) (config : SimConfig) (acts : List Act) :
    (play g config acts).value.Recalls (rebuilds (play g config acts).events) := by
  refine play_induction (I := fun v log => v.Recalls (rebuilds log)) ?_ (recalls_ofGraph g config) acts
  intro v log s h
  rw [rebuilds_append]
  exact h.stage s

/-- A viewer that remembers no search. -/
def forget (v : Viewer) : Viewer := v.remember none

theorem matching_forget (v : Viewer) :
    v.forget.matching.2 = if v.query.isEmpty then none else some (searchIn v.layout v.query) := by
  have hquery : v.forget.query = v.query := rfl
  rw [Viewer.matching, hquery]
  split <;> rfl

theorem Recalls.matching_eq {v : Viewer} {n : Nat} (h : v.Recalls n) (hn : n < UInt64.size) :
    v.matching.2 = v.forget.matching.2 := by
  rw [matching_forget]
  unfold Viewer.matching
  split
  next => rfl
  next =>
    split
    next r hr =>
      obtain ⟨hcache, hcurrent⟩ := Option.filter_eq_some_iff.1 hr
      obtain ⟨hrevision, hquery⟩ : r.revision = v.layout.revision ∧ r.query = v.query := by
        simpa [isCurrent] using hcurrent
      obtain ⟨k, hk, hnumber, hfound⟩ := h.cache hcache
      -- numbers below the size of the counter tell graphs apart
      have hsame : k = n := by
        have heq : UInt64.ofNat k = UInt64.ofNat n := by rw [← hnumber, hrevision, h.revision]
        have hnat := congrArg UInt64.toNat heq
        rwa [UInt64.toNat_ofNat_of_lt' (Nat.lt_of_le_of_lt hk hn), UInt64.toNat_ofNat_of_lt' hn] at hnat
      rw [hfound hsame, hquery]
    next => rfl

/-! ## Pictures -/

theorem approach_remember (v : Viewer) (c : Option SearchResult) (r : Rect Float32) (g : Gesture) :
    (v.remember c).approach r g = (v.approach r g).remember c :=
  congrArg (updateCenter · r) (v.beginFrame.zoomBy_remember c r g)

theorem underPointer_remember (v : Viewer) (c : Option SearchResult) (r : Rect Float32) (g : Gesture) :
    (v.remember c).underPointer r g = v.underPointer r g := by
  rw [underPointer, approach_remember]
  rfl

theorem pause_remember (v : Viewer) (c : Option SearchResult) (r : Rect Float32) (g : Gesture) :
    (v.remember c).pause r g = (v.pause r g).remember c := by
  rw [pause, approach_remember, underPointer_remember, dragNode_remember, panBy_remember, tick_remember,
    pause]

/-- A search changes nothing but what is remembered. -/
theorem forget_matching (v : Viewer) : v.matching.1.forget = v.forget := by
  unfold Viewer.matching
  split
  next => rfl
  next => split <;> rfl

theorem scene_forget (v : Viewer) (r : Rect Float32) : v.forget.scene r = v.scene r := rfl

theorem focus_forget (v : Viewer) (hovered : Option Nat) (found : Option (List Nat)) :
    v.forget.focus hovered found = v.focus hovered found := rfl

theorem graph_forget (v : Viewer) : v.forget.graph = v.graph := rfl

/-- With a search remembered that is not out of date, a frame draws what it would draw without. -/
theorem picture_forget {v : Viewer} {r : Rect Float32} {g : Gesture}
    (h : (v.pause r g).matching.2 = (v.pause r g).forget.matching.2) :
    v.forget.picture r g = v.picture r g := by
  have hground : background r v.forget.pan v.forget.zoom = background r v.pan v.zoom := rfl
  have happroach : v.forget.approach r g = (v.approach r g).forget := v.approach_remember none r g
  have hpause : v.forget.pause r g = (v.pause r g).forget := v.pause_remember none r g
  have hhovered : v.forget.underPointer r g = v.underPointer r g := v.underPointer_remember none r g
  have hlast : (v.pause r g).forget.matching.1.forget = (v.pause r g).matching.1.forget := by
    rw [forget_matching, forget_matching]
    rfl
  have hscene : (v.pause r g).forget.matching.1.scene r = (v.pause r g).matching.1.scene r := by
    rw [← scene_forget, hlast, scene_forget]
  have hfocus (hovered : Option Nat) (found : Option (List Nat)) :
      (v.pause r g).forget.matching.1.focus hovered found = (v.pause r g).matching.1.focus hovered found := by
    rw [← focus_forget, hlast, focus_forget]
  simp only [picture, hground, happroach, graph_forget, hpause, hhovered, hscene, hfocus, h]

/-! ## Runs -/

/-- The search of the next frame is remembered as well as the last one. -/
theorem Recalls.pause {v : Viewer} {n : Nat} (h : v.Recalls n) (r : Rect Float32) (g : Gesture) :
    (v.pause r g).Recalls n := by
  have hstart : v.Recalls (n + rebuilds []) := h
  have hstages := foldlM_stage_induction (I := fun v log => v.Recalls (n + rebuilds log)) ?_
    (v.openingStages r g ++ [Stage.drag r g (v.underPointer r g), .pan g, .tick]) hstart
  · rwa [foldlM_pause] at hstages
  · intro v log s hv
    rw [rebuilds_append, ← Nat.add_assoc]
    exact hv.stage s

/-- A search is never out of date. Whatever happens to a viewer, as long as its layout was given fewer
graphs than its counter can tell apart: nothing is looked for exactly if the search is blank, and else
exactly the bodies are found whose labels match; this is the answer of a viewer that remembers nothing,
and a frame draws the picture that such a viewer draws. -/
theorem matching_play (g : Graph) (config : SimConfig) (acts : List Act)
    (h : rebuilds (play g config acts).events < UInt64.size) :
    let v := (play g config acts).value
    (v.matching.2 = none ↔ Text.trim v.search = "") ∧
      (∀ found, v.matching.2 = some found → ∀ i, i ∈ found ↔
        ∃ b, v.layout.bodies[i]? = some b ∧ isMatch (Text.trim v.search) b.label = true) ∧
      v.matching.2 = v.forget.matching.2 ∧
      ∀ r gesture, (v.frame r gesture).value.2 = (v.forget.frame r gesture).value.2 := by
  intro v
  have hv : v.Recalls (rebuilds (play g config acts).events) := recalls_play g config acts
  have hmatching := hv.matching_eq h
  refine ⟨?_, ?_, hmatching, ?_⟩
  · rw [matching_eq_none_iff, query]
    exact String.isEmpty_iff
  · intro found hfound i
    rw [hmatching, matching_forget] at hfound
    split at hfound
    next => simp at hfound
    next => rw [← Option.some.inj hfound, mem_searchIn]; rfl
  · intro r gesture
    rw [picture_frame, picture_frame, picture_forget ((hv.pause r gesture).matching_eq h)]

/-- A name is found, then the node is folded away: what is remembered still gives its position, and the
next search does not. -/
theorem matching_play_folded :
    let g : Graph :=
      { nodes := [{ id := "a/x", name := "a/x", kind := .project },
          { id := "a/y", name := "a/y", kind := .project }] }
    let acts : List Act :=
      [.stage (.setLive false), .stage (.type " y "), .frame ⟨0, 0, 100, 100⟩ {},
        .stage (.intent .toggleGrouping)]
    let v := (play g {} acts).value
    rebuilds (play g {} acts).events < UInt64.size ∧ v.cache.map (·.found) = some [1] ∧
      v.matching.2 = some [] := by
  intro g acts v
  have h : rebuilds (play g {} acts).events < UInt64.size := by decide +kernel
  refine ⟨h, by decide +kernel, ?_⟩
  rw [(matching_play g {} acts h).2.2.1]
  decide +kernel

end Viewer

end ImportAtlas
