-- SUMMARY: The loads that a window has started: which are outstanding, which one it waits for, and how it takes a result.
import ImportAtlas.Proofs.Window.Tuning

/-! # Channels

A load is outstanding from its start until the window has taken its result. A window is orderly if the
load that it waits for is outstanding and no other is. Everything that happens to a window keeps it
orderly: loads end without anybody noticing, the user starts a load only where none is outstanding, and
a result that is taken leaves none. -/

namespace ImportAtlas

/-- Somebody waits at the channel. -/
def Channel.isOpen : Channel → Bool
  | .closed => false
  | .working | .ended _ => true

theorem Channel.isOpen_eq_false_iff {ch : Channel} : ch.isOpen = false ↔ ch = .closed := by
  cases ch <;> simp [isOpen]

namespace Window

/-- Whether a load was started and its end was not taken yet. -/
def isOutstanding (w : Window) (load : Ticket) : Bool := w.channels[load]?.any Channel.isOpen

theorem isOutstanding_iff {w : Window} {load : Ticket} :
    w.isOutstanding load = true ↔ (w.channels.map Channel.isOpen)[load]? = some true := by
  rw [isOutstanding, List.getElem?_map]
  cases w.channels[load]? <;> simp

theorem closed_iff {w : Window} {load : Ticket} :
    w.channels[load]? = some .closed ↔ (w.channels.map Channel.isOpen)[load]? = some false := by
  rw [List.getElem?_map, Option.map_eq_some_iff]
  constructor
  · intro h
    exact ⟨_, h, rfl⟩
  · rintro ⟨ch, hch, hclosed⟩
    rw [hch, Channel.isOpen_eq_false_iff.mp hclosed]

theorem isOutstanding_of_ended {w : Window} {load : Ticket} {d : Delivery}
    (h : w.channels[load]? = some (.ended d)) : w.isOutstanding load = true := by
  rw [isOutstanding, h]
  rfl

theorem isOutstanding_spawn {w : Window} {load : Nat} :
    w.spawn.1.isOutstanding load = true ↔ w.isOutstanding load = true ∨ load = w.channels.length := by
  simp only [isOutstanding, spawn, List.getElem?_append]
  rcases Nat.lt_trichotomy load w.channels.length with hlt | heq | hgt
  · simp [hlt, Nat.ne_of_lt hlt]
  · simp [heq, Channel.isOpen]
  · have hnot : ¬ load < w.channels.length := by omega
    have hbeyond : load - w.channels.length ≠ 0 := by omega
    have hne : load ≠ w.channels.length := by omega
    simp [hnot, hbeyond, hne]

/-! ## Ends of loads -/

/-- The window is the same but for loads that have ended, and `ends` tells how. -/
structure Awaits (ends : List (Ticket × Delivery)) (w w' : Window) : Prop where
  page : w'.page = w.page
  reload : w'.reload = w.reload
  config : w'.config = w.config
  isOpen : w'.channels.map Channel.isOpen = w.channels.map Channel.isOpen
  kept : ∀ (t : Ticket) (d : Delivery), w.channels[t]? = some (.ended d) → w'.channels[t]? = some (.ended d)
  new : ∀ (t : Ticket) (d : Delivery), w'.channels[t]? = some (.ended d) →
    w.channels[t]? = some (.ended d) ∨ (t, d) ∈ ends

namespace Awaits

variable {ends ends' : List (Ticket × Delivery)} {w w' w'' : Window}

theorem refl (w : Window) : Awaits [] w w :=
  ⟨rfl, rfl, rfl, rfl, fun _ _ h => h, fun _ _ h => .inl h⟩

theorem trans (h : Awaits ends w w') (h' : Awaits ends' w' w'') : Awaits (ends ++ ends') w w'' where
  page := h'.page.trans h.page
  reload := h'.reload.trans h.reload
  config := h'.config.trans h.config
  isOpen := h'.isOpen.trans h.isOpen
  kept t d hd := h'.kept t d (h.kept t d hd)
  new := by
    intro t d hd
    rcases h'.new t d hd with hd | hd
    · exact (h.new t d hd).imp id (List.mem_append_left _)
    · exact .inr (List.mem_append_right _ hd)

theorem awaited? (h : Awaits ends w w') : w'.awaited? = w.awaited? := by
  rw [Window.awaited?, Window.awaited?, h.page, h.reload]

theorem isOutstanding (h : Awaits ends w w') (t : Ticket) :
    w'.isOutstanding t = w.isOutstanding t := by
  rw [Bool.eq_iff_iff, isOutstanding_iff, isOutstanding_iff, h.isOpen]

theorem closed (h : Awaits ends w w') (t : Ticket) :
    w'.channels[t]? = some .closed ↔ w.channels[t]? = some .closed := by
  rw [closed_iff, closed_iff, h.isOpen]

theorem length (h : Awaits ends w w') : w'.channels.length = w.channels.length := by
  have hlength := congrArg List.length h.isOpen
  rwa [List.length_map, List.length_map] at hlength

end Awaits

theorem awaits_deliver (w : Window) (load : Ticket) (d : Delivery) :
    Awaits [(load, d)] w (w.deliver load d) := by
  unfold deliver
  split
  next hworking =>
    refine ⟨rfl, rfl, rfl, ?_, ?_, ?_⟩
    · have hopen : (w.channels.map Channel.isOpen)[load]? = some true := by
        rw [List.getElem?_map, hworking]
        rfl
      obtain ⟨hlt, hval⟩ := List.getElem?_eq_some_iff.mp hopen
      have hset := List.set_getElem_self hlt
      rw [hval] at hset
      rw [List.map_set]
      exact hset
    · intro t d' hd
      have hne : load ≠ t := by
        rintro rfl
        rw [hworking] at hd
        cases hd
      rw [List.getElem?_set_ne hne]
      exact hd
    · intro t d' hd
      by_cases ht : load = t
      · subst ht
        obtain ⟨hlt, -⟩ := List.getElem?_eq_some_iff.mp hworking
        rw [List.getElem?_set_self hlt] at hd
        cases hd
        exact .inr List.mem_cons_self
      · rw [List.getElem?_set_ne ht] at hd
        exact .inl hd
  next => exact ⟨rfl, rfl, rfl, rfl, fun _ _ h => h, fun _ _ h => .inl h⟩

theorem awaits_foldl_deliver (w : Window) (ends : List (Ticket × Delivery)) :
    Awaits ends w (ends.foldl (fun w e => w.deliver e.1 e.2) w) := by
  induction ends generalizing w with
  | nil => exact .refl w
  | cons e ends ih => exact (w.awaits_deliver e.1 e.2).trans (ih _)

/-! ## One load at a time -/

/-- The load that the window waits for is outstanding and no other is, and everything in the window has
the tuning `c`. -/
structure Orderly (w : Window) (c : SimConfig) : Prop where
  awaited : ∀ t, w.isOutstanding t = true ↔ w.awaited? = some t
  reload_ready : w.reload.isSome = true → ∃ v, w.page = .ready v
  config : w.config = c
  viewer : ∀ v, w.page = .ready v → v.config = c

variable {w w' : Window} {c : SimConfig}

theorem Orderly.of_awaits {ends : List (Ticket × Delivery)} (hw : w.Orderly c)
    (h : Awaits ends w w') : w'.Orderly c where
  awaited := by
    intro t
    rw [h.isOutstanding, h.awaited?]
    exact hw.awaited t
  reload_ready := by
    rw [h.reload, h.page]
    exact hw.reload_ready
  config := h.config.trans hw.config
  viewer := by
    rw [h.page]
    exact hw.viewer

theorem Orderly.not_outstanding (hw : w.Orderly c) (h : w.awaited? = none) (t : Ticket) :
    w.isOutstanding t = false := by
  rw [Bool.eq_false_iff]
  intro ht
  rw [(hw.awaited t).mp ht] at h
  cases h

/-- A load is started where none is outstanding, and the window waits for it. -/
theorem awaited_spawn (hnone : ∀ t, w.isOutstanding t = false) {u : Window}
    (hchannels : u.channels = w.spawn.1.channels) (hawaited : u.awaited? = some w.channels.length)
    (t : Ticket) : u.isOutstanding t = true ↔ u.awaited? = some t := by
  have hu : u.isOutstanding t = w.spawn.1.isOutstanding t := by
    rw [isOutstanding, isOutstanding, hchannels]
  rw [hu, isOutstanding_spawn, hnone, hawaited]
  simp [eq_comm]

theorem orderly_startLoad (hw : w.Orderly c) (h : w.awaited? = none) :
    w.startLoad.value.Orderly c where
  awaited := awaited_spawn (hw.not_outstanding h) rfl rfl
  reload_ready := by
    intro h
    cases h
  config := hw.config
  viewer := by
    intro v hv
    cases hv

theorem orderly_ofOrigin (origin : Origin) (config : SimConfig) :
    (ofOrigin origin config).value.Orderly config := by
  apply orderly_startLoad _ rfl
  refine ⟨?_, ?_, rfl, ?_⟩
  · intro t
    simp [isOutstanding, awaited?]
  · intro h
    cases h
  · intro v hv
    cases hv

/-- The tuning after a frame in which the user wants something. There are knobs only beside a viewer. -/
def tuned (w : Window) (c : SimConfig) (intents : List Intent) : SimConfig :=
  match w.page with
  | .ready _ => intents.foldl retune c
  | .failed _ | .loading _ => c

/-- What the user's part of a frame does to a window. -/
theorem interact_loading {load : Ticket} (h : w.page = .loading load) (canvas : Rect Float32)
    (intents : List Intent) (g : Gesture) :
    (w.interact canvas intents g).value.1 = { w with flipped := intents.foldl flip w.flipped } := by
  simp only [interact, h, Logged.value_pure]

theorem interact_failed {message : String} (h : w.page = .failed message) (canvas : Rect Float32)
    (intents : List Intent) (g : Gesture) :
    (w.interact canvas intents g).value.1 =
      let next := { w with flipped := intents.foldl flip w.flipped }
      if .retry ∈ intents then next.startLoad.value else next := by
  simp only [interact, h]
  split <;> rfl

theorem interact_ready {v : Viewer} (h : w.page = .ready v) (canvas : Rect Float32)
    (intents : List Intent) (g : Gesture) :
    (w.interact canvas intents g).value.1 =
      let shown := w.viewerAfter v canvas intents g
      let next := { w with
        flipped := intents.foldl flip w.flipped, page := .ready shown, config := shown.config }
      if .reload ∈ intents ∧ w.reload.isNone then
        { next.spawn.1 with reload := some w.channels.length }
      else next := by
  simp only [interact, h, viewerAfter]
  cases hreload : w.reload with
  | none =>
    by_cases hmem : Intent.reload ∈ intents
    · simp [hmem, spawn]
    · simp [hmem]
  | some load => simp

/-- The user's part of a frame keeps the window orderly. -/
theorem Orderly.interact (hw : w.Orderly c) (canvas : Rect Float32) (intents : List Intent)
    (g : Gesture) : (w.interact canvas intents g).value.1.Orderly (w.tuned c intents) := by
  cases hpage : w.page with
  | loading load =>
    have htuned : w.tuned c intents = c := by rw [tuned, hpage]
    rw [interact_loading hpage, htuned]
    exact ⟨hw.awaited, hw.reload_ready, hw.config, hw.viewer⟩
  | failed message =>
    have hnone : w.awaited? = none := by rw [awaited?, hpage]
    have htuned : w.tuned c intents = c := by rw [tuned, hpage]
    have hnext : Orderly { w with flipped := intents.foldl flip w.flipped } c :=
      ⟨hw.awaited, hw.reload_ready, hw.config, hw.viewer⟩
    rw [interact_failed hpage, htuned]
    dsimp only
    split
    next => exact orderly_startLoad hnext hnone
    next => exact hnext
  | ready v =>
    have hconfig : (w.viewerAfter v canvas intents g).config = intents.foldl retune c := by
      rw [config_viewerAfter, hw.viewer v hpage]
    have hawaited : w.awaited? = w.reload := by rw [awaited?, hpage]
    have htuned : w.tuned c intents = intents.foldl retune c := by rw [tuned, hpage]
    rw [interact_ready hpage, htuned]
    dsimp only
    split
    next hreload =>
      have hnone : w.awaited? = none := hawaited.trans (Option.isNone_iff_eq_none.mp hreload.2)
      refine ⟨awaited_spawn (w := w) (hw.not_outstanding hnone) rfl rfl, fun _ => ⟨_, rfl⟩, hconfig, ?_⟩
      rintro _ ⟨⟩
      exact hconfig
    next =>
      refine ⟨?_, fun _ => ⟨_, rfl⟩, hconfig, ?_⟩
      · intro t
        exact (hw.awaited t).trans (hawaited ▸ Iff.rfl)
      · rintro _ ⟨⟩
        exact hconfig

/-- A load is started by the user's part of a frame only if none is outstanding. -/
theorem Orderly.channels_interact (hw : w.Orderly c) (canvas : Rect Float32) (intents : List Intent)
    (g : Gesture) :
    (w.interact canvas intents g).value.1.channels = w.channels ∨
      (∀ t, w.isOutstanding t = false) ∧
        (w.interact canvas intents g).value.1.channels = w.channels ++ [.working] := by
  cases hpage : w.page with
  | loading load =>
    rw [interact_loading hpage]
    exact .inl rfl
  | failed message =>
    rw [interact_failed hpage]
    dsimp only
    split
    next => exact .inr ⟨hw.not_outstanding (by rw [awaited?, hpage]), rfl⟩
    next => exact .inl rfl
  | ready v =>
    rw [interact_ready hpage]
    dsimp only
    split
    next hreload =>
      have hnone : w.awaited? = none := by
        rw [awaited?, hpage]
        exact Option.isNone_iff_eq_none.mp hreload.2
      exact .inr ⟨hw.not_outstanding hnone, rfl⟩
    next => exact .inl rfl

/-! ## Taking results -/

/-- The result that is there for a window to take. -/
def due? (w : Window) : Option (Ticket × Delivery) := do
  let load ← w.awaited?
  match w.channels[load]? with
  | some (.ended d) => some (load, d)
  | some .working | some .closed | none => none

theorem due?_eq_some_iff {load : Ticket} {d : Delivery} :
    w.due? = some (load, d) ↔ w.awaited? = some load ∧ w.channels[load]? = some (.ended d) := by
  constructor
  · intro h
    obtain ⟨t, hawaited, hdue⟩ := Option.bind_eq_some_iff.mp h
    cases hch : w.channels[t]? with
    | none => simp [hch] at hdue
    | some ch =>
      cases ch with
      | working => simp [hch] at hdue
      | closed => simp [hch] at hdue
      | ended d' =>
        simp only [hch, Option.some.injEq, Prod.mk.injEq] at hdue
        obtain ⟨rfl, rfl⟩ := hdue
        exact ⟨hawaited, hch⟩
  · rintro ⟨hawaited, hch⟩
    simp [due?, hawaited, hch]

theorem Orderly.due?_eq_some_iff (hw : w.Orderly c) {load : Ticket} {d : Delivery} :
    w.due? = some (load, d) ↔ w.channels[load]? = some (.ended d) := by
  rw [Window.due?_eq_some_iff, and_iff_right_iff_imp]
  intro hended
  exact (hw.awaited load).mp (isOutstanding_of_ended hended)

/-- The window after it has taken a result. -/
def take (w : Window) (load : Ticket) (d : Delivery) : Window :=
  { w with
    channels := w.channels.set load .closed, page := (pageOf w.config d).value, reload := none }

theorem collect_of_due {load : Ticket} {d : Delivery} (h : w.due? = some (load, d)) :
    w.collect.value = w.take load d := by
  obtain ⟨hawaited, hended⟩ := Window.due?_eq_some_iff.mp h
  simp only [collect, hawaited, poll, hended]
  rfl

/-- A window that is orderly waits at no closed channel, so it finds nothing only where a load is still
under way. -/
theorem Orderly.collect_of_not_due (hw : w.Orderly c) (h : w.due? = none) : w.collect.value = w := by
  cases hawaited : w.awaited? with
  | none => simp only [collect, hawaited, Logged.value_pure]
  | some t =>
    have hopen := (hw.awaited t).mpr hawaited
    cases hch : w.channels[t]? with
    | none => simp [isOutstanding, hch] at hopen
    | some ch =>
      cases ch with
      | working => simp only [collect, hawaited, poll, hch, Logged.value_pure]
      | ended d => simp [due?, hawaited, hch] at h
      | closed => simp [isOutstanding, hch, Channel.isOpen] at hopen

theorem isOutstanding_take {load : Ticket} {d : Delivery} {t : Ticket} :
    (w.take load d).isOutstanding t = true ↔ w.isOutstanding t = true ∧ t ≠ load := by
  by_cases ht : load = t
  · subst ht
    have hclosed : (w.take load d).isOutstanding load = false := by
      simp only [isOutstanding, take, List.getElem?_set_self']
      cases w.channels[load]? <;> rfl
    simp [hclosed]
  · have hne : t ≠ load := fun h => ht h.symm
    simp [isOutstanding, take, List.getElem?_set_ne ht, hne]

/-- A viewer that a delivery opens is tuned like the window. -/
theorem config_of_pageOf_eq_ready (config : SimConfig) (d : Delivery) (v : Viewer)
    (h : (pageOf config d).value = .ready v) : v.config = config := by
  cases d with
  | graph g =>
    cases h
    exact Session.config_ofGraph g Layout.empty config
  | failure message => cases h
  | lost => cases h

theorem Orderly.take (hw : w.Orderly c) {load : Ticket} {d : Delivery}
    (h : w.due? = some (load, d)) : (w.take load d).Orderly c where
  awaited := by
    intro t
    have hnone : (w.take load d).awaited? = none := by
      cases d <;> rfl
    rw [isOutstanding_take, hnone, hw.awaited, (Window.due?_eq_some_iff.mp h).1]
    simp [eq_comm]
  reload_ready := by
    intro h
    cases h
  config := hw.config
  viewer := by
    intro v hv
    rw [← hw.config]
    exact config_of_pageOf_eq_ready w.config d v hv

theorem Orderly.collect (hw : w.Orderly c) : w.collect.value.Orderly c := by
  cases hdue : w.due? with
  | none =>
    rw [hw.collect_of_not_due hdue]
    exact hw
  | some p =>
    rw [collect_of_due hdue]
    exact hw.take hdue

end Window

end ImportAtlas
