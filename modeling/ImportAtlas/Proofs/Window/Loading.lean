-- SUMMARY: The loading protocol of the window: one load at a time, every result taken once, and a tuning that outlives every viewer.
import ImportAtlas.Proofs.Window.Channels
import Mathlib.Data.List.Induction
import Mathlib.Data.List.Nodup

/-! # The loading protocol

Frames of a window and ends of loads follow each other in any order, and a load may also end in the
middle of a frame. Whatever the order, at most one load is outstanding, and it is the one that the
window waits for. So a result is never left behind, and never looked for twice. The tuning of the viewer
is copied to the window in every frame that shows one, so that it is still there when the next viewer is
made, however many loads have failed in between. -/

namespace ImportAtlas

namespace Window

variable {w w' : Window} {c : SimConfig}

/-! ## Frames -/

/-- The window in a frame when it looks for the end of a load. -/
def meanwhile (w : Window) (canvas : Rect Float32) (intents : List Intent) (g : Gesture)
    (ends : List (Ticket × Delivery)) : Window :=
  ends.foldl (fun w e => w.deliver e.1 e.2) (w.interact canvas intents g).value.1

theorem value_frame (w : Window) (canvas : Rect Float32) (intents : List Intent) (g : Gesture)
    (ends : List (Ticket × Delivery)) :
    (w.frame canvas intents g ends).value.1 =
      if w.polls then (w.meanwhile canvas intents g ends).collect.value
      else w.meanwhile canvas intents g ends := by
  simp only [frame, meanwhile, Logged.value_bind]
  split <;> rfl

/-- Something that happens to a window. -/
inductive Happening where
  /-- a load ends between two frames -/
  | ends (load : Ticket) (d : Delivery)
  /-- a frame, in which the user wants something and loads end -/
  | frame (canvas : Rect Float32) (intents : List Intent) (g : Gesture)
    (ends : List (Ticket × Delivery))

/-- How loads end when something happens. -/
def Happening.deliveries : Happening → List (Ticket × Delivery)
  | .ends load d => [(load, d)]
  | .frame _ _ _ results => results

/-- The user wants to load again what could not be loaded. -/
def Happening.retries : Happening → Bool
  | .ends _ _ => false
  | .frame _ intents _ _ => .retry ∈ intents

/-- The window after something has happened. -/
def happen (w : Window) : Happening → Window
  | .ends load d => w.deliver load d
  | .frame canvas intents g ends => (w.frame canvas intents g ends).value.1

/-- The result that is taken when something happens. -/
def receipt? (w : Window) : Happening → Option (Ticket × Delivery)
  | .ends _ _ => none
  | .frame canvas intents g ends =>
    if w.polls then (w.meanwhile canvas intents g ends).due? else none

/-- The tuning after something has happened, where the user had set the tuning `c` before. -/
def tuning (w : Window) (c : SimConfig) : Happening → SimConfig
  | .ends _ _ => c
  | .frame _ intents _ _ => w.tuned c intents

/-- A window that has not taken a result is the one that may have started a load. -/
theorem Orderly.frame_of_not_due (hw : w.Orderly c) {canvas : Rect Float32} {intents : List Intent}
    {g : Gesture} {ends : List (Ticket × Delivery)}
    (h : w.receipt? (.frame canvas intents g ends) = none) :
    (w.frame canvas intents g ends).value.1 = w.meanwhile canvas intents g ends := by
  have hmeanwhile := (hw.interact canvas intents g).of_awaits (awaits_foldl_deliver _ ends)
  rw [value_frame]
  split
  next hpolls =>
    rw [receipt?, if_pos hpolls] at h
    exact hmeanwhile.collect_of_not_due h
  next => rfl

theorem frame_of_due {canvas : Rect Float32} {intents : List Intent} {g : Gesture}
    {ends : List (Ticket × Delivery)} {load : Ticket} {d : Delivery}
    (h : w.receipt? (.frame canvas intents g ends) = some (load, d)) :
    (w.meanwhile canvas intents g ends).due? = some (load, d) ∧
      (w.frame canvas intents g ends).value.1 =
        (w.meanwhile canvas intents g ends).take load d := by
  rw [receipt?] at h
  split at h
  next hpolls => exact ⟨h, by rw [value_frame, if_pos hpolls, collect_of_due h]⟩
  next => cases h

theorem Orderly.happen (hw : w.Orderly c) (h : Happening) : (w.happen h).Orderly (w.tuning c h) := by
  cases h with
  | ends load d => exact hw.of_awaits (w.awaits_deliver load d)
  | frame canvas intents g ends =>
    have hmeanwhile := (hw.interact canvas intents g).of_awaits (awaits_foldl_deliver _ ends)
    rw [Window.happen, value_frame]
    split
    next => exact hmeanwhile.collect
    next => exact hmeanwhile

/-- A load that is outstanding before a frame still is when the frame looks for its end. -/
theorem Orderly.ended_meanwhile (hw : w.Orderly c) {load : Ticket} {d : Delivery}
    (h : w.channels[load]? = some (.ended d)) (canvas : Rect Float32) (intents : List Intent)
    (g : Gesture) (ends : List (Ticket × Delivery)) :
    (w.meanwhile canvas intents g ends).channels[load]? = some (.ended d) := by
  apply (awaits_foldl_deliver _ ends).kept
  rcases hw.channels_interact canvas intents g with hchannels | ⟨hnone, -⟩
  · rw [hchannels]
    exact h
  · have hopen := isOutstanding_of_ended h
    rw [hnone] at hopen
    cases hopen

theorem Orderly.polls_of_outstanding (hw : w.Orderly c) {load : Ticket}
    (h : w.isOutstanding load = true) : w.polls = true := by
  have hawaited := (hw.awaited load).mp h
  rw [awaited?] at hawaited
  rw [polls]
  split at hawaited
  next hpage => rw [hpage]
  next hpage => rw [hpage]
  next => cases hawaited

/-- A result is taken in the first frame that finds it. -/
theorem Orderly.receipt?_of_ended (hw : w.Orderly c) {load : Ticket} {d : Delivery}
    (h : w.channels[load]? = some (.ended d)) (canvas : Rect Float32) (intents : List Intent)
    (g : Gesture) (ends : List (Ticket × Delivery)) :
    w.receipt? (.frame canvas intents g ends) = some (load, d) := by
  have hmeanwhile := (hw.interact canvas intents g).of_awaits (awaits_foldl_deliver _ ends)
  have hended := hw.ended_meanwhile h canvas intents g ends
  rw [receipt?, if_pos (hw.polls_of_outstanding (isOutstanding_of_ended h))]
  exact hmeanwhile.due?_eq_some_iff.mpr hended

/-! ## Every course of events -/

/-- What is known of a window after some things have happened. -/
structure Account where
  window : Window
  /-- the tuning that the user set last -/
  tuning : SimConfig
  /-- the results that were taken, in order -/
  taken : List (Ticket × Delivery) := []

/-- The account after one more thing has happened. -/
def Account.note (a : Account) (h : Happening) : Account where
  window := a.window.happen h
  tuning := a.window.tuning a.tuning h
  taken := a.taken ++ (a.window.receipt? h).toList

/-- The account of a window that was opened with a tuning. -/
def account (origin : Origin) (config : SimConfig) (hs : List Happening) : Account :=
  hs.foldl Account.note { window := (ofOrigin origin config).value, tuning := config }

theorem account_concat (origin : Origin) (config : SimConfig) (hs : List Happening) (h : Happening) :
    account origin config (hs ++ [h]) = (account origin config hs).note h :=
  List.foldl_concat ..

/-- Two pages of one kind. -/
inductive Page.SameKind : Page → Page → Prop where
  | loading (load : Ticket) : SameKind (.loading load) (.loading load)
  | ready (v v' : Viewer) : SameKind (.ready v) (.ready v')
  | failed (message : String) : SameKind (.failed message) (.failed message)

theorem Page.SameKind.refl (p : Page) : Page.SameKind p p := by
  cases p with
  | loading load => exact .loading load
  | ready v => exact .ready v v
  | failed message => exact .failed message

/-- The user's part of a frame changes the kind of a page only where loading is tried again. -/
theorem sameKind_interact (w : Window) (canvas : Rect Float32) (intents : List Intent) (g : Gesture) :
    Page.SameKind w.page (w.interact canvas intents g).value.1.page ∨
      (∃ message, w.page = .failed message) ∧ .retry ∈ intents ∧
        (w.interact canvas intents g).value.1.page = .loading w.channels.length := by
  cases hpage : w.page with
  | loading load =>
    rw [interact_loading hpage, hpage]
    exact .inl (.loading load)
  | failed message =>
    rw [interact_failed hpage]
    dsimp only
    split
    next hretry => exact .inr ⟨⟨message, rfl⟩, hretry, rfl⟩
    next =>
      rw [hpage]
      exact .inl (.failed message)
  | ready v =>
    rw [interact_ready hpage]
    dsimp only
    split <;> exact .inl (.ready v _)

/-- A load is started in a frame only if none is outstanding before it. -/
theorem Orderly.length_meanwhile (hw : w.Orderly c) (canvas : Rect Float32) (intents : List Intent)
    (g : Gesture) (ends : List (Ticket × Delivery)) :
    (w.meanwhile canvas intents g ends).channels.length = w.channels.length ∨
      (∀ t, w.isOutstanding t = false) ∧
        (w.meanwhile canvas intents g ends).channels.length = w.channels.length + 1 := by
  have hlength := (awaits_foldl_deliver (w.interact canvas intents g).value.1 ends).length
  rcases hw.channels_interact canvas intents g with hchannels | ⟨hnone, hchannels⟩
  · rw [hchannels] at hlength
    exact .inl hlength
  · rw [hchannels, List.length_append, List.length_singleton] at hlength
    exact .inr ⟨hnone, hlength⟩

theorem Orderly.length_happen (hw : w.Orderly c) (h : Happening) :
    (w.happen h).channels.length = w.channels.length ∨
      (∀ t, w.isOutstanding t = false) ∧
        (w.happen h).channels.length = w.channels.length + 1 := by
  cases h with
  | ends load d => exact .inl (w.awaits_deliver load d).length
  | frame canvas intents g ends =>
    have hlength : (w.happen (.frame canvas intents g ends)).channels.length =
        (w.meanwhile canvas intents g ends).channels.length := by
      rw [Window.happen]
      cases hreceipt : w.receipt? (.frame canvas intents g ends) with
      | none => rw [hw.frame_of_not_due hreceipt]
      | some p => rw [(frame_of_due hreceipt).2, Window.take, List.length_set]
    rw [hlength]
    exact hw.length_meanwhile canvas intents g ends

/-- A result that is taken alone decides the page, which has the tuning that was set last. -/
theorem Orderly.page_of_receipt (hw : w.Orderly c) {h : Happening} {load : Ticket} {d : Delivery}
    (hreceipt : w.receipt? h = some (load, d)) :
    (w.happen h).page = (pageOf (w.tuning c h) d).value := by
  cases h with
  | ends load d => cases hreceipt
  | frame canvas intents g ends =>
    have hmeanwhile := (hw.interact canvas intents g).of_awaits (awaits_foldl_deliver _ ends)
    have hconfig : (w.meanwhile canvas intents g ends).config = w.tuned c intents := hmeanwhile.config
    rw [Window.happen, (frame_of_due hreceipt).2, Window.take, hconfig]
    rfl

theorem Orderly.page_of_no_receipt (hw : w.Orderly c) {h : Happening}
    (hreceipt : w.receipt? h = none) :
    Page.SameKind w.page (w.happen h).page ∨
      (∃ message, w.page = .failed message) ∧ h.retries = true ∧
        (w.happen h).page = .loading w.channels.length := by
  cases h with
  | ends load d =>
    rw [Window.happen, (w.awaits_deliver load d).page]
    exact .inl (.refl w.page)
  | frame canvas intents g ends =>
    have hpage : (w.meanwhile canvas intents g ends).page = (w.interact canvas intents g).value.1.page :=
      (awaits_foldl_deliver _ ends).page
    rw [Window.happen, hw.frame_of_not_due hreceipt, hpage, Happening.retries, decide_eq_true_eq]
    exact w.sameKind_interact canvas intents g

theorem Orderly.closed_meanwhile_iff (hw : w.Orderly c) (canvas : Rect Float32) (intents : List Intent)
    (g : Gesture) (ends : List (Ticket × Delivery)) (t : Ticket) :
    (w.meanwhile canvas intents g ends).channels[t]? = some .closed ↔
      w.channels[t]? = some .closed := by
  rw [meanwhile, (awaits_foldl_deliver _ ends).closed]
  rcases hw.channels_interact canvas intents g with hchannels | ⟨-, hchannels⟩
  · rw [hchannels]
  · rw [hchannels, List.getElem?_append]
    split
    next => rfl
    next hlt =>
      rw [List.getElem?_eq_none (Nat.not_lt.mp hlt)]
      cases t - w.channels.length <;> simp

/-- A channel is closed by taking what it holds, and in no other way. -/
theorem Orderly.closed_happen_iff (hw : w.Orderly c) (h : Happening) (t : Ticket) :
    (w.happen h).channels[t]? = some .closed ↔
      w.channels[t]? = some .closed ∨ t ∈ (w.receipt? h).toList.map (·.1) := by
  cases h with
  | ends load d =>
    rw [Window.happen, (w.awaits_deliver load d).closed, receipt?]
    simp
  | frame canvas intents g ends =>
    have hclosed := hw.closed_meanwhile_iff canvas intents g ends t
    rw [Window.happen]
    cases hreceipt : w.receipt? (.frame canvas intents g ends) with
    | none =>
      rw [hw.frame_of_not_due hreceipt, hclosed]
      simp
    | some p =>
      obtain ⟨hdue, hframe⟩ := frame_of_due hreceipt
      obtain ⟨hlt, -⟩ := List.getElem?_eq_some_iff.mp (Window.due?_eq_some_iff.mp hdue).2
      rw [hframe, Window.take]
      by_cases ht : p.1 = t
      · subst ht
        simp [List.getElem?_set_self hlt]
      · have hne : t ≠ p.1 := fun h => ht h.symm
        simp [List.getElem?_set_ne ht, hclosed, hne]

theorem Orderly.ended_of_meanwhile (hw : w.Orderly c) (canvas : Rect Float32) (intents : List Intent)
    (g : Gesture) {ends : List (Ticket × Delivery)} {load : Ticket} {d : Delivery}
    (h : (w.meanwhile canvas intents g ends).channels[load]? = some (.ended d)) :
    w.channels[load]? = some (.ended d) ∨ (load, d) ∈ ends := by
  refine ((awaits_foldl_deliver _ ends).new load d h).imp ?_ id
  intro hold
  rcases hw.channels_interact canvas intents g with hchannels | ⟨-, hchannels⟩
  · rwa [hchannels] at hold
  · rw [hchannels, List.getElem?_append] at hold
    split at hold
    next => exact hold
    next => cases hn : load - w.channels.length <;> simp [hn] at hold

/-- A result that is taken is one that a load ended with. -/
theorem Orderly.ended_of_receipt (hw : w.Orderly c) {h : Happening} {load : Ticket} {d : Delivery}
    (hreceipt : w.receipt? h = some (load, d)) :
    w.channels[load]? = some (.ended d) ∨ (load, d) ∈ h.deliveries := by
  cases h with
  | ends load d => cases hreceipt
  | frame canvas intents g ends =>
    have hended := (Window.due?_eq_some_iff.mp (frame_of_due hreceipt).1).2
    exact hw.ended_of_meanwhile canvas intents g hended

/-- And so is one that a channel holds. -/
theorem Orderly.ended_of_happen (hw : w.Orderly c) {h : Happening} {load : Ticket} {d : Delivery}
    (hended : (w.happen h).channels[load]? = some (.ended d)) :
    w.channels[load]? = some (.ended d) ∨ (load, d) ∈ h.deliveries := by
  cases h with
  | ends load' d' => exact (w.awaits_deliver load' d').new load d hended
  | frame canvas intents g ends =>
    rw [Window.happen] at hended
    apply hw.ended_of_meanwhile canvas intents g
    cases hreceipt : w.receipt? (.frame canvas intents g ends) with
    | none => rwa [hw.frame_of_not_due hreceipt] at hended
    | some p =>
      rw [(frame_of_due hreceipt).2, Window.take] at hended
      have hne : p.1 ≠ load := by
        rintro rfl
        rw [List.getElem?_set_self'] at hended
        cases hch : (w.meanwhile canvas intents g ends).channels[p.1]? <;> simp [hch] at hended
      rwa [List.getElem?_set_ne hne] at hended

/-- What may happen next. -/
structure Account.Advances (a : Account) (h : Happening) : Prop where
  /-- a load is started only when none is outstanding, and then only one -/
  starts : (a.note h).window.channels.length ≠ a.window.channels.length →
    (∀ t, a.window.isOutstanding t = false) ∧
      (a.note h).window.channels.length = a.window.channels.length + 1
  /-- a graph is shown by a new viewer with the tuning that the user set last -/
  graph : ∀ t g, a.window.receipt? h = some (t, .graph g) →
    (a.note h).window.page = .ready (Viewer.ofGraph g (a.note h).tuning).value
  failure : ∀ t message, a.window.receipt? h = some (t, .failure message) →
    (a.note h).window.page = .failed message
  lost : ∀ t, a.window.receipt? h = some (t, .lost) →
    (a.note h).window.page = .failed "Background load worker disconnected"
  /-- without a result the page stays, but that loading can be tried again -/
  stays : a.window.receipt? h = none →
    Page.SameKind a.window.page (a.note h).window.page ∨
      (∃ message, a.window.page = .failed message) ∧ h.retries = true ∧
        (a.note h).window.page = .loading a.window.channels.length

/-- The loading protocol, after some things have happened. -/
structure Protocol (origin : Origin) (config : SimConfig) (hs : List Happening) : Prop where
  /-- at most one load is outstanding -/
  single : ∀ t t', (account origin config hs).window.isOutstanding t = true →
    (account origin config hs).window.isOutstanding t' = true → t = t'
  /-- a load is waited for beside a page only if that shows a viewer -/
  reload_ready : (account origin config hs).window.reload.isSome = true →
    ∃ v, (account origin config hs).window.page = .ready v
  /-- every viewer has the tuning that the user set last -/
  viewer : ∀ v, (account origin config hs).window.page = .ready v →
    v.config = (account origin config hs).tuning
  /-- what is taken is what a load has ended with -/
  delivered : ∀ p ∈ (account origin config hs).taken, p ∈ hs.flatMap Happening.deliveries
  /-- nothing is taken twice -/
  once : ((account origin config hs).taken.map (·.1)).Nodup
  /-- and what is not outstanding any more was taken -/
  closed_iff : ∀ t, (account origin config hs).window.channels[t]? = some .closed ↔
    t ∈ (account origin config hs).taken.map (·.1)
  /-- a result is taken in the next frame, whatever the user wants -/
  prompt : ∀ t d, (account origin config hs).window.channels[t]? = some (.ended d) →
    ∀ canvas intents g ends,
      (account origin config hs).window.receipt? (.frame canvas intents g ends) = some (t, d)
  advances : ∀ h, (account origin config hs).Advances h

theorem Orderly.advances {a : Account} (ha : a.window.Orderly a.tuning) (h : Happening) :
    a.Advances h where
  starts := by
    intro hne
    exact (ha.length_happen h).resolve_left hne
  graph t g hreceipt := ha.page_of_receipt hreceipt
  failure t message hreceipt := ha.page_of_receipt hreceipt
  lost t hreceipt := ha.page_of_receipt hreceipt
  stays hreceipt := ha.page_of_no_receipt hreceipt

/-- An account that tells what became of every load, where `ends` are all the results there were. -/
structure Account.Complete (a : Account) (ends : List (Ticket × Delivery)) : Prop where
  orderly : a.window.Orderly a.tuning
  held : ∀ (t : Ticket) (d : Delivery), a.window.channels[t]? = some (.ended d) → (t, d) ∈ ends
  delivered : ∀ p ∈ a.taken, p ∈ ends
  once : (a.taken.map (·.1)).Nodup
  closed_iff : ∀ t : Ticket, a.window.channels[t]? = some .closed ↔ t ∈ a.taken.map (·.1)

/-- A load whose result is taken was outstanding until then. -/
theorem Orderly.not_closed_of_receipt (hw : w.Orderly c) {h : Happening} {load : Ticket} {d : Delivery}
    (hreceipt : w.receipt? h = some (load, d)) : w.channels[load]? ≠ some .closed := by
  cases h with
  | ends load d => cases hreceipt
  | frame canvas intents g ends =>
    intro hclosed
    have hended := (Window.due?_eq_some_iff.mp (frame_of_due hreceipt).1).2
    rw [(hw.closed_meanwhile_iff canvas intents g ends load).mpr hclosed] at hended
    cases hended

theorem Account.Complete.note {a : Account} {ends : List (Ticket × Delivery)} (ha : a.Complete ends)
    (h : Happening) : (a.note h).Complete (ends ++ h.deliveries) where
  orderly := ha.orderly.happen h
  held := by
    intro t d hended
    rcases ha.orderly.ended_of_happen hended with hold | hnew
    · exact List.mem_append_left _ (ha.held t d hold)
    · exact List.mem_append_right _ hnew
  delivered := by
    intro p hp
    rcases List.mem_append.mp hp with hold | hnew
    · exact List.mem_append_left _ (ha.delivered p hold)
    · rcases ha.orderly.ended_of_receipt (Option.mem_toList.mp hnew) with hheld | hend
      · exact List.mem_append_left _ (ha.held p.1 p.2 hheld)
      · exact List.mem_append_right _ hend
  once := by
    rw [Account.note, List.map_append, List.nodup_append]
    refine ⟨ha.once, ?_, ?_⟩
    · cases a.window.receipt? h <;> simp
    · intro t ht t' ht' heq
      subst heq
      obtain ⟨p, hp, rfl⟩ := List.mem_map.mp ht'
      exact ha.orderly.not_closed_of_receipt (Option.mem_toList.mp hp) ((ha.closed_iff p.1).mpr ht)
  closed_iff := by
    intro t
    rw [Account.note, ha.orderly.closed_happen_iff, ha.closed_iff, List.map_append, List.mem_append]

theorem complete_account (origin : Origin) (config : SimConfig) (hs : List Happening) :
    (account origin config hs).Complete (hs.flatMap Happening.deliveries) := by
  induction hs using List.reverseRecOn with
  | nil =>
    have hchannels (t : Ticket) (ch : Channel)
        (h : (account origin config []).window.channels[t]? = some ch) : ch = .working := by
      have hmem : ch ∈ [Channel.working] := List.mem_of_getElem? h
      simpa using hmem
    refine ⟨orderly_ofOrigin origin config, ?_, ?_, List.nodup_nil, ?_⟩
    · intro t d hended
      cases hchannels t _ hended
    · intro p hp
      cases hp
    · intro t
      constructor
      · intro hclosed
        cases hchannels t _ hclosed
      · intro ht
        cases ht
  | append_singleton hs h ih =>
    rw [account_concat, List.flatMap_append, List.flatMap_singleton]
    exact ih.note h

/-- Whatever happens in whatever order, the loading protocol is kept. -/
theorem protocol_account (origin : Origin) (config : SimConfig) (hs : List Happening) :
    Protocol origin config hs := by
  have ha := complete_account origin config hs
  have hw := ha.orderly
  constructor
  case single =>
    intro t t' ht ht'
    have heq := ((hw.awaited t).mp ht).symm.trans ((hw.awaited t').mp ht')
    exact Option.some.inj heq
  case reload_ready => exact hw.reload_ready
  case viewer => exact hw.viewer
  case delivered => exact ha.delivered
  case once => exact ha.once
  case closed_iff => exact ha.closed_iff
  case prompt =>
    intro t d hended canvas intents g ends
    exact hw.receipt?_of_ended hended canvas intents g ends
  case advances => exact hw.advances

end Window

end ImportAtlas
