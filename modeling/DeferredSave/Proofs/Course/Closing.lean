import DeferredSave.Proofs.Course.Ledger

/-!
# What a closed engine still does

A closed engine keeps taking its turns, since timers expire and the store answers as before, but
nobody notices: it asks nothing of the store, tells nobody, and shows what it showed. There is one
exception. A flight that was asked for before the engine was closed does not look whether it is
closed when it takes off, so it still takes its batch and sends it
(`Course.closed_turn_unnoticed_iff`).
-/

namespace DeferredSave

variable {ω : Type} {acting : Engine.Acting ω} {g g' : Engine ω}
  {admitted : Engine ω → Call ω → Prop}

/-! ## The error that is shown -/

/-- There is an error only if the status says so. -/
def Indicator.Proper (i : Indicator) : Prop := i.status ≠ .error → i.error = none

theorem Indicator.proper_of_event (e : StatusEvent) : Proper ⟨e.target, e.error?⟩ := by
  intro hstatus
  cases e with
  | failed message => exact (hstatus rfl).elim
  | edit | saving | saved | idle => rfl

namespace Engine

theorem proper_abiding :
    Abiding (fun _ _ => True) fun g : Engine ω => g.board.indicator.Proper where
  unspoken := ⟨fun _ _ _ h => h, fun _ _ h => h⟩
  edit := fun _ _ _ _ _ => Indicator.proper_of_event .edit
  quiet := fun _ h => h
  drop := fun _ _ h => h
  rest := fun _ _ _ _ => Indicator.proper_of_event .idle
  close := fun h => h
  subscribe := fun _ _ h => h
  unsubscribe := fun {g} handle h => g.indicator_unsubscribe handle ▸ h
  request := fun _ h => h
  launch := fun _ h => h
  load := fun h => h

end Engine

theorem Listening.proper (h : Listening admitted acting) :
    Keeps (fun g : Engine ω => g.board.indicator.Proper) acting :=
  Engine.proper_abiding.keeps h.any

theorem Engine.proper_after (hlisten : Listening admitted acting) (h : g.board.indicator.Proper)
    (ev : Event ω) : (g.after acting ev).board.indicator.Proper := by
  have hsteady : Engine.Steady (fun g : Engine ω => g.board.indicator.Proper) acting :=
    ⟨hlisten.proper, fun e _ => Indicator.proper_of_event e, fun hg _ hboard _ => hboard ▸ hg⟩
  cases ev with
  | call c => exact proper_abiding.call hlisten.proper trivial h
  | turn t => exact hsteady.turn h fun _ _ _ _ _ _ => h
  | wait seconds => exact h

theorem Course.Reachable.proper {events : Course ω → Event ω → Prop} {c : Course ω}
    (h : c.Reachable events (Listening admitted)) : c.engine.board.indicator.Proper := by
  obtain ⟨metas, rules, quietPeriod, shownFor, hleads⟩ := h
  induction hleads with
  | refl => exact fun _ => rfl
  | step _ hlisten _ _ ih => exact Engine.proper_after hlisten ih _

namespace Engine

/-! ## Turns that nobody notices -/

/-- Nothing that can be seen from outside differs. -/
structure Unnoticed (g g' : Engine ω) : Prop where
  asks : g'.asks = g.asks
  indicator : g'.board.indicator = g.board.indicator
  notices : g'.board.notices = g.board.notices
  edits : g'.edits = g.edits
  catalog : g'.catalog = g.catalog

theorem asks_land (g : Engine ω) (failure? : Option Failure) : (g.land failure?).asks = g.asks := by
  unfold land
  rw [asks_emit]
  exact List.append_nil _

theorem unnoticed_land (g : Engine ω) (failure? : Option Failure) :
    Unnoticed g (g.land failure?) :=
  ⟨asks_land g failure?, rfl, rfl, rfl, rfl⟩

theorem goesAround_of_closed (h : g.closed = true) : g.goesAround = false := by
  simp [goesAround, h]

/-- The flight of a closed engine does not go round. -/
theorem endRound_unnoticed (acting : Acting ω) (h : g.closed = true) :
    Unnoticed g (g.endRound acting) := by
  rcases endRound_cases acting g with ⟨hagain, -⟩ | ⟨-, heq⟩
  · rw [goesAround_of_closed h] at hagain
    cases hagain
  · rw [heq]
    exact ⟨asks_land _ none, rfl, rfl, rfl, rfl⟩

theorem withLoad_unnoticed (h : g.closed = true) (load : Nat)
    (answer : Except Failure Categories) : Unnoticed g (g.withLoad load answer) :=
  ⟨rfl, rfl, rfl, rfl, loadedCatalog_of_closed h load answer⟩

theorem Unnoticed.trans {g'' : Engine ω} (h : Unnoticed g g') (h' : Unnoticed g' g'') :
    Unnoticed g g'' where
  asks := h'.asks.trans h.asks
  indicator := h'.indicator.trans h.indicator
  notices := h'.notices.trans h.notices
  edits := h'.edits.trans h.edits
  catalog := h'.catalog.trans h.catalog

/-- But for a flight that takes off, a closed engine takes its turns unnoticed. -/
theorem turn_unnoticed (acting : Acting ω) (h : g.closed = true) {t : Turn} (ht : t ≠ .takeOff) :
    Unnoticed g (g.turn acting t) := by
  have hrefl : Unnoticed g g := ⟨rfl, rfl, rfl, rfl, rfl⟩
  cases t with
  | quietOver =>
    change Unnoticed g (quietOver _)
    rcases quietOver_cases { g with quiet := g.quiet.cancel } with
      ⟨-, heq⟩ | ⟨hopen, -⟩ | ⟨hopen, -⟩
    · rw [heq]
      exact ⟨rfl, rfl, rfl, rfl, rfl⟩
    -- an expired timer would start a flight of an open engine only
    · exact absurd (h.symm.trans hopen) nofun
    · exact absurd (h.symm.trans hopen) nofun
  | shownOver =>
    change Unnoticed g (shownOver acting _)
    rcases shownOver_cases acting { g with shown := g.shown.cancel } with heq | ⟨hopen, -⟩
    · rw [heq]
      exact ⟨rfl, rfl, rfl, rfl, rfl⟩
    · exact absurd (h.symm.trans hopen) nofun
  | takeOff => exact (ht rfl).elim
  | updated answer =>
    change Unnoticed g (g.updated acting answer)
    cases hflight : g.flight with
    | saving batch =>
      -- the answer of the store is not even looked at
      rcases updated_cases acting hflight answer with ⟨-, heq⟩ | ⟨hopen, -⟩ | ⟨hopen, -⟩
      · exact heq ▸ endRound_unnoticed acting h
      · exact absurd (h.symm.trans hopen) nofun
      · exact absurd (h.symm.trans hopen) nofun
    | none | waiting | reloading => simpa [updated, hflight] using hrefl
  | reloaded answer =>
    change Unnoticed g (g.reloaded acting answer)
    cases hflight : g.flight with
    | reloading batch rows load =>
      have hload := withLoad_unnoticed h load answer
      rcases reloaded_cases acting hflight answer with
        ⟨-, heq⟩ | ⟨f, -, -, heq⟩ | ⟨hopen, -⟩
      · exact heq ▸ hload.trans (endRound_unnoticed acting h)
      · exact heq ▸ hload.trans (unnoticed_land _ _)
      · exact absurd (h.symm.trans hopen) nofun
    | none | waiting | saving => simpa [reloaded, hflight] using hrefl
  | loaded load answer =>
    rw [turn_loaded]
    exact withLoad_unnoticed h load answer

/-! ## A flight that takes off -/

/-- What a flight shows that takes off. -/
def departure (g : Engine ω) : Status := if g.edits.isEmpty then .idle else .saving

/-- A flight that takes off changes what is shown. -/
def Departs (g : Engine ω) : Prop :=
  g.status ≠ g.departure ∧ g.status.canBecome g.departure = true

/-- While a closed engine has a flight, listeners cannot move the indicator. -/
theorem indicator_lasting (i : Indicator) : Lasting (fun _ _ => True) fun g : Engine ω =>
    g.closed = true ∧ g.flying = true ∧ g.board.indicator = i where
  unspoken := ⟨fun _ _ _ h => h, fun _ _ h => h⟩
  edit := fun _ _ _ hopen h => nomatch h.1.symm.trans hopen
  quiet := fun _ h => h
  drop := fun _ _ h => h
  rest := fun hnone _ _ h => nomatch h.2.1.symm.trans hnone
  close := fun h => ⟨rfl, h.2⟩
  subscribe := fun _ _ h => h
  unsubscribe := fun {g} handle h => ⟨h.1, h.2.1, (g.indicator_unsubscribe handle).trans h.2.2⟩

theorem Told.indicator {status : Status} (h : Told acting status g g')
    (hlisten : Listening admitted acting) (hclosed : g.closed = true) (hflying : g.flying = true) :
    g'.board.indicator = g.board.indicator :=
  (h.keeps ((indicator_lasting g.board.indicator).keeps hlisten.any) ⟨hclosed, hflying, rfl⟩).2.2

/-- Without edits, an idle engine has nothing to show. -/
theorem sendBatch_of_idle (acting : Acting ω) (hempty : g.edits.isEmpty = true)
    (hidle : g.status = .idle) :
    g.sendBatch acting =
      { { g with edited := false }.shows .idle with requested := false }.land none := by
  have hfire := fire_of_eq (g := { g with edited := false }) (e := .idle) acting hidle
    (by change g.status.canBecome .idle = true; rw [hidle]; rfl)
  unfold sendBatch
  dsimp only
  rw [EditBuffer.snapshot_isEmpty, if_pos hempty, hfire]

theorem sendBatch_unnoticed_iff (hlisten : Listening admitted acting) (hclosed : g.closed = true)
    (hwaiting : g.flight = .waiting) (hproper : g.board.indicator.Proper) :
    Unnoticed g (g.sendBatch acting) ↔ ¬ g.Departs := by
  have hflying : g.flying = true := by simp [flying, hwaiting]
  unfold Departs departure
  rcases sendBatch_cases acting g with
    ⟨hempty, hbecome, g', htold, heq⟩ | ⟨hsome, hbecome, g', htold, heq⟩ | ⟨hrefused, failure?, heq⟩
  · rw [if_pos hempty]
    by_cases hidle : g.status = .idle
    · -- an idle engine stays as it is
      have hindicator : g.board.indicator = ⟨.idle, none⟩ := by
        have hstatus : g.board.indicator.status = .idle := hidle
        have herror : g.board.indicator.error = none := hproper (by rw [hstatus]; decide)
        rw [← hstatus, ← herror]
      refine iff_of_true ?_ fun hdeparts => hdeparts.1 hidle
      rw [sendBatch_of_idle acting hempty hidle]
      exact ⟨asks_land _ none, hindicator.symm, rfl, rfl, rfl⟩
    · -- the others become idle, and stay so when the listeners are told
      refine iff_of_false ?_ fun hstays => hstays ⟨hidle, hbecome⟩
      intro hunnoticed
      have hshown : g'.board.indicator = ⟨.idle, none⟩ := htold.indicator hlisten hclosed hflying
      have hindicator : (g.sendBatch acting).board.indicator = ⟨.idle, none⟩ := heq ▸ hshown
      refine hidle ?_
      unfold status
      rw [← hunnoticed.indicator, hindicator]
  · -- the batch is sent, so the store is called
    rw [if_neg (by simp [hsome])]
    have hsaving : g.status ≠ .saving := by
      intro hs
      rw [hs] at hbecome
      cases hbecome
    refine iff_of_false ?_ fun hstays => hstays ⟨hsaving, hbecome⟩
    intro hunnoticed
    have hasks : g'.asks = g.asks := (htold.keeps (hlisten.beside _) (.refl _)).asks
    have hsent : (g.sendBatch acting).asks = g'.asks ++ [.update g.edits.snapshot] :=
      heq ▸ asks_emit _ _
    rw [hunnoticed.asks, hasks] at hsent
    exact absurd (List.self_eq_append_right.1 hsent) (List.cons_ne_nil _ _)
  · -- a flight that the indicator does not allow lands again
    refine iff_of_true ?_ fun hdeparts => ?_
    · rw [heq]
      exact ⟨asks_land _ failure?, rfl, rfl, rfl, rfl⟩
    · exact absurd (hrefused.symm.trans hdeparts.2) Bool.false_ne_true

theorem takeOff_unnoticed_iff (hlisten : Listening admitted acting) (hclosed : g.closed = true)
    (hwaiting : g.flight = .waiting) (hproper : g.board.indicator.Proper) :
    Unnoticed g (g.takeOff acting) ↔ ¬ g.Departs := by
  have hstart : Unnoticed g { g with requested := false } := ⟨rfl, rfl, rfl, rfl, rfl⟩
  have hback : Unnoticed { g with requested := false } g := ⟨rfl, rfl, rfl, rfl, rfl⟩
  have hiff := sendBatch_unnoticed_iff (g := { g with requested := false }) hlisten hclosed
    hwaiting hproper
  exact ⟨fun h => hiff.1 (hback.trans h), fun h => hstart.trans (hiff.2 h)⟩

end Engine

/-! ## In the course of events -/

namespace Course

/-- Between two courses the store is not called, nobody is told anything, and all that is shown
stays as it is. -/
structure Unnoticed (c c' : Course ω) : Prop where
  asked : c'.asked = c.asked
  indicator : c'.engine.board.indicator = c.engine.board.indicator
  notices : c'.engine.board.notices = c.engine.board.notices
  edits : c'.engine.edits = c.engine.edits
  catalog : c'.engine.catalog = c.engine.catalog

theorem Sound.unnoticed_iff {c : Course ω} (h : c.Sound) (t : Turn) :
    c.Unnoticed (c.after acting (.turn t)) ↔ c.engine.Unnoticed (c.engine.turn acting t) := by
  have hasked : (c.after acting (.turn t)).asked = c.asked ++ (c.engine.turn acting t).asks :=
    congrArg (c.asked ++ ·) (List.append_nil _)
  constructor
  · intro hc
    have hasks : (c.engine.turn acting t).asks = [] :=
      List.self_eq_append_right.1 (hc.asked.symm.trans hasked)
    exact ⟨hasks.trans h.asks.symm, hc.indicator, hc.notices, hc.edits, hc.catalog⟩
  · intro hg
    refine ⟨?_, hg.indicator, hg.notices, hg.edits, hg.catalog⟩
    rw [hasked, hg.asks, h.asks, List.append_nil]

/-- A closed engine starts no flight, so one that has yet to take off was there before. -/
theorem Leads.waiting_of_closed {events : Course ω → Event ω → Prop} {c c' : Course ω}
    (h : c.Leads events (Listening admitted) c') (hclosed : c.engine.closed = true) :
    c'.engine.closed = true ∧ (c'.engine.flight = .waiting → c.engine.flight = .waiting) := by
  induction h with
  | refl => exact ⟨hclosed, id⟩
  | @step c' acting ev _ hlisten _ _ ih =>
    refine ⟨Engine.closed_after hlisten ih.1 ev, fun hwaiting => ih.2 ?_⟩
    have hafter : (c'.engine.after acting ev).flight = .waiting := hwaiting
    -- of all that moves a flight, only asking for one lets it wait, and that takes an open engine
    cases Engine.flown_after hlisten c'.engine ev with
    | stays hstays => exact hstays.symm.trans hafter
    | asked hopen _ => exact absurd (ih.1.symm.trans hopen) nofun
    | rounded hrounded =>
      rcases hrounded with hr | ⟨_, hr⟩ <;> rw [hr] at hafter <;> cases hafter
    | reloads _ _ hreloads =>
      rw [hreloads] at hafter
      cases hafter

/-- From the moment on when the engine is closed, what it does by itself is noticed in one case
only: a flight that had been asked for by then takes off, and changes what is shown. -/
theorem closed_turn_unnoticed_iff {c c' : Course ω} {t : Turn}
    (hc : c.Reachable (fun _ _ => True) (Listening fun _ _ => True))
    (hclosed : c.engine.closed = true)
    (hc' : c.Leads (fun _ _ => True) (Listening fun _ _ => True) c')
    (hlisten : Listening (fun _ _ => True) acting) (hready : c'.Ready (.turn t)) :
    c'.Unnoticed (c'.after acting (.turn t)) ↔
      ¬ (t = .takeOff ∧ c.engine.flight = .waiting ∧ c'.engine.Departs) := by
  have hreach := hc.trans hc'
  obtain ⟨hclosed', hwaits⟩ := hc'.waiting_of_closed hclosed
  rw [hreach.sound.unnoticed_iff]
  by_cases ht : t = .takeOff
  · subst ht
    have hwaiting : c'.engine.flight = .waiting := hready
    have hiff : c'.engine.Unnoticed (c'.engine.turn acting .takeOff) ↔ ¬ c'.engine.Departs :=
      Engine.takeOff_unnoticed_iff hlisten hclosed' hwaiting hreach.proper
    rw [hiff]
    constructor
    · intro hstays hdeparts
      exact hstays hdeparts.2.2
    · intro hstays hdeparts
      exact hstays ⟨rfl, hwaits hwaiting, hdeparts⟩
  · exact iff_of_true (Engine.turn_unnoticed acting hclosed' ht) fun hdeparts => ht hdeparts.1

/-- The flight of an edit that was saved at once is noticed after the engine was closed. -/
theorem closed_flight_departs :
    let c : Course Unit := (start [] [] 1 1).run .silent
      [.call (.change "key" "value"), .call .flushNow, .call .close]
    c.engine.closed = true ∧ ¬ c.Unnoticed (c.after .silent (.turn .takeOff)) := by
  intro c
  have hlisten : Listening (fun _ _ => True) (Engine.silent : Engine.Acting Unit) :=
    aloof_silent.listening
  have hc : c.Reachable (fun _ _ => True) (Listening fun _ _ => True) :=
    ⟨[], [], 1, 1, leads_run hlisten (by decide) fun _ _ _ => trivial⟩
  have hready : c.Ready (.turn .takeOff) := rfl
  refine ⟨rfl, fun hunnoticed => ?_⟩
  have hstays := (closed_turn_unnoticed_iff hc rfl .refl hlisten hready).1 hunnoticed
  exact hstays ⟨rfl, rfl, nofun, rfl⟩

/-- A closed engine can call the store: it still sends the batch of a flight that was asked for. -/
theorem closed_engine_sends :
    ∃ (c : Course Unit) (batch : Batch),
      c.Reachable (fun _ _ => True) (Listening fun _ _ => True) ∧ c.engine.closed = true ∧
        c.Ready (.turn .takeOff) ∧ c.sent = [] ∧
        (c.after .silent (.turn .takeOff)).sent = [batch] ∧
        c.engine.status = .pending ∧
        (c.after .silent (.turn .takeOff)).engine.status = .saving := by
  refine ⟨(start [] [] 1 1).run .silent
    [.call (.change "key" "value"), .call .flushNow, .call .close], ⟨[("key", "value")], [1]⟩,
    ⟨[], [], 1, 1, ?_⟩, rfl, rfl, rfl, rfl, rfl, rfl⟩
  exact leads_run aloof_silent.listening (by decide) fun _ _ _ => trivial

end Course

end DeferredSave
