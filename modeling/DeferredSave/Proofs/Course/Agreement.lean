import DeferredSave.Proofs.Course.Refusal

/-!
# The status agrees with the edits

As long as listeners leave an open engine alone, loading the catalog fails in no unforeseen way and
no call is refused, the status tells what there is: a batch that is under way, or else whether there
are edits (`Engine.Agrees`). There is one exception (`Engine.Lapsed`). When a batch is not stored,
the failure is shown without a look at the edits, and these may have been dropped meanwhile. So the
engine shows a failure while there is nothing left to save, and nothing but a further edit or a
further call to drop edits puts it right (`Course.status_agrees_iff`).
-/

namespace DeferredSave

variable {ω : Type} {acting : Engine.Acting ω} {g : Engine ω} {sent : List Batch}

namespace Engine

/-! ## Agreement -/

/-- The indicator shows a batch that is under way, or edits beyond it; and without a flight it shows
whether there are edits. -/
structure Agrees (g : Engine ω) : Prop where
  aloft : ∀ batch, g.flight.batch? = some batch → g.status = .saving ∨ g.status = .pending
  landed : g.flight = .none → Fits g.status g.edits

/-- A failure is shown though there are no edits that were not saved. -/
structure Lapsed (g : Engine ω) : Prop where
  flight : g.flight = .none
  edits : g.edits.isEmpty = true
  status : g.status = .error

/-- The call is granted. What is answered does not depend on the listeners. -/
def Grants (g : Engine ω) : Call ω → Prop
  | .change key value => (g.change silent key value).2 = .ok ()
  | .discard keys? => ∃ dropped, (g.discard silent keys?).2 = .ok dropped
  | .flushNow => ∃ flies, g.flushNow.2 = .ok flies
  | .refresh => g.refresh.2 = .ok ()
  | .close | .subscribe .. | .unsubscribe _ => True

end Engine

/-- The event neither makes nor drops edits, and asks for no flight. -/
def Event.Idles : Event ω → Prop
  | .call (.change ..) | .call (.discard _) | .turn .quietOver => False
  | _ => True

/-- With edits the status of an engine without a flight fits anyway. -/
theorem Owed.fits (h : Owed sent g)
    (hempty : g.edits.isEmpty = true → g.status = .idle ∨ g.status = .saved)
    (hnone : g.flight = .none) : Fits g.status g.edits := by
  have hground : Grounded g.status g.edits := h.grounded (by rw [hnone]; rfl)
  cases hedits : g.edits.isEmpty with
  | true => exact fits_of_isEmpty hedits (hempty hedits)
  | false => exact fits_of_edits hedits (hground.shows hedits)

namespace Engine

theorem Lapsed.not_fits (h : g.Lapsed) : ¬ Fits g.status g.edits := by
  intro hfits
  have hs : g.status = .idle ∨ g.status = .saved := hfits.1.1 h.edits
  rw [h.status] at hs
  simp at hs

/-! ## What an event does to it -/

/-- What an event does to the agreement of an engine, which matters only if it is without a flight
afterwards. -/
inductive Settles (g : Engine ω) (ev : Event ω) (g' : Engine ω) : Prop where
  | fits : (g'.flight = .none → Fits g'.status g'.edits) → Settles g ev g'
  | stays : ev.Idles → g'.flight = g.flight → g'.status = g.status → g'.edits = g.edits →
      Settles g ev g'
  | failed {batch : Batch} {f : Failure} :
      g.flight = .saving batch → ev = .turn (.updated (.error f)) →
      (g'.flight = .none → g'.status = .error ∧ g'.edits = g.edits) → Settles g ev g'

theorem idle_or_saved (hsaving : g.status ≠ .saving) (hshows : g.showsEdits = false) :
    g.status = .idle ∨ g.status = .saved := by
  unfold showsEdits at hshows
  cases hs : g.status <;> simp_all

/-- When the last edits are dropped without a flight, the indicator is idle if it showed them. -/
theorem discard_emptied (acting : Acting ω) (g : Engine ω) {keys? : Option (List String)}
    (hgranted : g.Grants (.discard keys?)) (hnone : g.flight = .none)
    (hempty : (g.edits.discard keys?).1.isEmpty = true) :
    (g.showsEdits = false ∧ (g.discard acting keys?).1.status = g.status) ∨
      ∃ g', Told acting .idle
        ({ g with edits := (g.edits.discard keys?).1, quiet := g.quiet.cancel }.shows .idle) g' ∧
        (g.discard acting keys?).1 = g' := by
  obtain ⟨dropped, hgranted⟩ := hgranted
  rw [snd_discard] at hgranted
  unfold discard
  rcases hd : g.edits.discard keys? with ⟨edits, missing | dropped⟩
  · rw [hd] at hgranted
    cases hgranted
  · rw [hd] at hempty
    dsimp only at hempty ⊢
    rw [if_neg (by simp [hempty])]
    split
    · rename_i hshows
      have hstays : g.flying = false := by simp [flying, hnone]
      refine .inl ⟨?_, rfl⟩
      change (g.flying || !g.showsEdits) = true at hshows
      simpa [hstays] using hshows
    · rename_i hshows
      rw [Bool.or_eq_true, not_or] at hshows
      have hedits : g.showsEdits = true :=
        Bool.of_not_eq_false fun hf => hshows.2 (congrArg not hf)
      obtain ⟨g', htold, hfire⟩ :=
        fire_of_canBecome (g := { g with edits, quiet := g.quiet.cancel }) (e := .idle) acting
          (canBecome_idle hedits)
      rw [hfire]
      exact .inr ⟨g', htold, rfl⟩

section Settling

variable (haloof : Aloof acting) (howed : Owed sent g) (hopen : g.closed = false)
include haloof howed hopen

theorem call_settles {c : Call ω} (hgranted : g.Grants c)
    (hopen' : (g.call acting c).closed = false) : Settles g (.call c) (g.call acting c) := by
  cases c with
  | change key value =>
    refine .fits fun hnone => ?_
    have hafter : Owed sent (g.change acting key value).1 := howed.change haloof hopen key value
    refine hafter.fits (fun hempty => ?_) hnone
    -- the edit that was just made is there
    obtain ⟨g', htold, heq⟩ := change_of_open acting hopen key value
    obtain ⟨notices, outbox, rfl, -⟩ := htold.of_aloof haloof
    have hmade : (⟨key, value, g.edits.issued + 1⟩ : Edit) ∈ (g.edit key value).edits.edits :=
      EditBuffer.mem_set.2 (.inr rfl)
    rw [heq] at hempty
    exact (not_mem_of_isEmpty hempty _ hmade).elim
  | discard keys? =>
    change Settles g _ (g.discard acting keys?).1
    have hafter : Owed sent (g.discard acting keys?).1 := howed.discard haloof keys?
    have hflight : (g.discard acting keys?).1.flight = g.flight :=
      ((beside_lasting g).discard (haloof.listening.beside g) trivial (.refl g)).flight
    refine .fits fun hnone => hafter.fits (fun hempty => ?_) hnone
    rw [hflight] at hnone
    have hempty : (g.edits.discard keys?).1.isEmpty = true := by
      rcases discard_cases acting g keys? with heq | ⟨hempty, -⟩
      · rwa [heq] at hempty
      · exact hempty
    rcases discard_emptied acting g hgranted hnone hempty with
      ⟨hshows, hstatus⟩ | ⟨g', htold, heq⟩
    · -- the indicator showed neither edits nor a save, so it may stay as it is
      have hground : Grounded g.status g.edits := howed.grounded (by rw [hnone]; rfl)
      rw [hstatus]
      exact idle_or_saved hground.status hshows
    · obtain ⟨notices, outbox, rfl, -⟩ := htold.of_aloof haloof
      rw [heq]
      exact .inl rfl
  | flushNow =>
    change Settles g _ g.flushNow.1
    rcases flushNow_cases g with
      ⟨-, heq⟩ | ⟨-, -, heq⟩ | ⟨-, -, -, heq⟩ | ⟨-, -, -, heq⟩
    · rw [heq]
      exact .stays trivial rfl rfl rfl
    · rw [heq]
      exact .stays trivial rfl rfl rfl
    · rw [heq]
      exact .stays trivial rfl rfl rfl
    · rw [heq]
      exact .fits nofun
  | refresh =>
    change Settles g _ g.refresh.1
    unfold refresh
    split <;> exact .stays trivial rfl rfl rfl
  | close =>
    change g.close.closed = false at hopen'
    simp [close, hopen] at hopen'
  | subscribe listener reply? => exact .stays trivial rfl rfl rfl
  | unsubscribe handle => exact .stays trivial rfl (status_unsubscribe g handle) rfl

theorem turn_settles (hsaid : g.Unrefused) {t : Turn}
    (hready : t = .takeOff → g.flight = .waiting)
    (hforeseen : (Event.turn t : Event ω).Foreseen) :
    Settles g (.turn t) (g.turn acting t) := by
  cases t with
  | quietOver =>
    refine .fits fun hnone => ?_
    change (quietOver _).flight = .none at hnone
    rcases quietOver_cases { g with quiet := g.quiet.cancel } with
      ⟨hclosed, -⟩ | ⟨-, hflying, heq⟩ | ⟨-, -, heq⟩
    · cases hclosed.symm.trans hopen
    · have hnone : g.flight = .none := by rwa [heq] at hnone
      simp [flying, hnone] at hflying
    · rw [heq] at hnone
      cases hnone
  | shownOver =>
    change Settles g _ (shownOver acting _)
    rcases shownOver_cases acting { g with shown := g.shown.cancel } with heq | ⟨-, -, htold⟩
    · rw [heq]
      exact .stays trivial rfl rfl rfl
    · refine .fits ?_
      have hafter : Owed sent (g.turn acting .shownOver) := howed.shownOver haloof
      refine hafter.fits fun _ => ?_
      obtain ⟨notices, outbox, heq, -⟩ := htold.of_aloof haloof
      exact .inl (congrArg status heq)
  | takeOff =>
    have hground : Grounded g.status g.edits := howed.grounded (by rw [hready rfl]; rfl)
    have hended := sendBatch_ended (g := { g with requested := false }) haloof hsaid hground
    refine .fits fun hnone => ?_
    obtain ⟨hidle, hempty, -⟩ := hended.rests hnone
    exact fits_of_isEmpty hempty (.inl hidle)
  | updated answer =>
    change Settles g _ (g.updated acting answer)
    cases hflight : g.flight with
    | saving batch =>
      have hended := updated_ended haloof hsaid howed hopen hflight answer
      cases answer with
      | ok rows =>
        refine .fits fun hnone => ?_
        obtain ⟨⟨_, ⟨⟩⟩, -⟩ := hended.rests hnone
      | error f => exact .failed hflight rfl fun hnone => (hended.rests hnone).2
    | none | waiting | reloading =>
      have heq : g.updated acting answer = g := by simp [updated, hflight]
      rw [heq]
      exact .stays trivial rfl rfl rfl
  | reloaded answer =>
    change Settles g _ (g.reloaded acting answer)
    cases hflight : g.flight with
    | reloading batch rows load =>
      have hanswer : ∀ f, answer = .error f → f.isFetch = true := by
        rintro f rfl
        exact hforeseen
      exact .fits (reloaded_ended haloof hsaid howed hopen hflight hanswer).rests
    | none | waiting | saving =>
      have heq : g.reloaded acting answer = g := by simp [reloaded, hflight]
      rw [heq]
      exact .stays trivial rfl rfl rfl
  | loaded load answer =>
    rw [turn_loaded]
    exact .stays trivial rfl rfl rfl

end Settling

/-- A flight goes round for edits only. -/
theorem endRound_of_isEmpty (acting : Acting ω) (hempty : g.edits.isEmpty = true) :
    g.endRound acting = { g with requested := false }.land none := by
  rcases endRound_cases acting g with ⟨hagain, -⟩ | ⟨-, heq⟩
  · have hsome : g.edits.isEmpty = false := (goesAround_iff.1 hagain).2.2.1
    exact absurd (hempty.symm.trans hsome) nofun
  · exact heq

/-- A failure is shown whatever edits there are, and without any the flight is over. -/
theorem updated_lapsed (haloof : Aloof acting) (howed : Owed sent g) (hopen : g.closed = false)
    {batch : Batch} (hflight : g.flight = .saving batch) (hempty : g.edits.isEmpty = true)
    (f : Failure) : (g.updated acting (.error f)).Lapsed := by
  obtain ⟨g', htold, heq⟩ := updated_error acting howed hopen hflight f
  obtain ⟨notices, outbox, rfl, -⟩ := htold.of_aloof haloof
  rw [heq, endRound_of_isEmpty]
  · exact ⟨rfl, hempty, rfl⟩
  · exact hempty

/-- Nothing but a further edit, a call to drop edits or a new flight puts it right. -/
theorem Lapsed.call (h : g.Lapsed) {c : Call ω} (hidles : (Event.call c).Idles)
    (hopen : (g.call acting c).closed = false) : (g.call acting c).Lapsed := by
  obtain ⟨hflight, hempty, hstatus⟩ := h
  cases c with
  | change | discard => exact hidles.elim
  | flushNow =>
    change g.flushNow.1.Lapsed
    rcases flushNow_cases g with
      ⟨-, heq⟩ | ⟨-, hflying, -⟩ | ⟨-, -, -, heq⟩ | ⟨-, -, hsome, -⟩
    · rw [heq]
      exact ⟨hflight, hempty, hstatus⟩
    · simp [flying, hflight] at hflying
    · rw [heq]
      exact ⟨hflight, hempty, hstatus⟩
    · cases hempty.symm.trans hsome
  | refresh =>
    change g.refresh.1.Lapsed
    unfold refresh
    split <;> exact ⟨hflight, hempty, hstatus⟩
  | close =>
    change g.close.closed = false at hopen
    unfold close at hopen
    split at hopen
    · rename_i hclosed
      cases hclosed.symm.trans hopen
    · cases hopen
  | subscribe listener reply? => exact ⟨hflight, hempty, hstatus⟩
  | unsubscribe handle => exact ⟨hflight, hempty, (status_unsubscribe g handle).trans hstatus⟩

end Engine

/-! ## In the course of events -/

namespace Course

/-- Loading the catalog fails only as a load may fail, and no call is refused. -/
def Granted (c : Course ω) (ev : Event ω) : Prop :=
  ev.Foreseen ∧ ∀ call, ev = .call call → c.engine.Grants call

theorem settles {c : Course ω} {ev : Event ω} (hc : c.Reachable Granted Aloof)
    (hopen : c.engine.closed = false) (haloof : Aloof acting) (hready : c.Ready ev)
    (hgranted : c.Granted ev) (hopen' : (c.after acting ev).engine.closed = false) :
    c.engine.Settles ev (c.after acting ev).engine := by
  have hforeseen : c.Reachable (fun _ => Event.Foreseen) Aloof :=
    hc.mono (fun _ _ => And.left) fun _ => id
  have howed : Owed c.sent c.engine := hforeseen.owed hopen
  have hsettles : c.engine.Settles ev (c.engine.after acting ev) := by
    cases ev with
    | call call => exact Engine.call_settles haloof howed hopen (hgranted.2 call rfl) hopen'
    | wait seconds => exact .stays trivial rfl rfl rfl
    | turn t =>
      have hsound : c.Sound := (hforeseen.mono (fun _ _ => id) fun _ => Aloof.listening).sound
      refine Engine.turn_settles haloof howed hopen hsound.unrefused ?_ hgranted.1
      rintro rfl
      exact hready
  -- emptying the outbox changes nothing of this
  cases hsettles with
  | fits hfits => exact .fits hfits
  | stays hidles hflight hstatus hedits => exact .stays hidles hflight hstatus hedits
  | failed hflight hev hrests => exact .failed hflight hev hrests

/-- Without a flight, the status fits to the edits or there is a failure with nothing to save. -/
theorem Reachable.fits_or_lapsed {c : Course ω} (h : c.Reachable Granted Aloof)
    (hopen : c.engine.closed = false) (hnone : c.engine.flight = .none) :
    Fits c.engine.status c.engine.edits ∨ c.engine.Lapsed := by
  obtain ⟨metas, rules, quietPeriod, shownFor, hleads⟩ := h
  induction hleads with
  | refl => exact .inl (fits_of_isEmpty rfl (.inl rfl))
  | @step c acting ev hleads haloof hready hgranted ih =>
    have hbefore : c.engine.closed = false := Engine.open_of_after haloof.listening hopen
    have hc : c.Reachable Granted Aloof := ⟨metas, rules, quietPeriod, shownFor, hleads⟩
    -- what stays as it is was right before, or had lapsed
    cases settles hc hbefore haloof hready hgranted hopen with
    | fits hfits => exact .inl (hfits hnone)
    | stays _ hflight hstatus hedits =>
      rw [hstatus, hedits]
      refine (ih hbefore (hflight ▸ hnone)).imp_right fun hlapsed => ?_
      exact ⟨hnone, hedits ▸ hlapsed.edits, hstatus.trans hlapsed.status⟩
    | failed hflight hev hrests =>
      obtain ⟨hstatus, hedits⟩ := hrests hnone
      cases hempty : (c.after acting ev).engine.edits.isEmpty with
      | true => exact .inr ⟨hnone, hempty, hstatus⟩
      | false => exact .inl (fits_of_edits hempty (.inr hstatus))

/-- An engine that has lapsed and is left idle stays so. -/
theorem lapsed_after {c : Course ω} {ev : Event ω} (h : c.engine.Lapsed) (hready : c.Ready ev)
    (hidles : ev.Idles) (hopen : (c.after acting ev).engine.closed = false) :
    (c.after acting ev).engine.Lapsed := by
  have hflight : c.engine.flight = .none := h.flight
  have hafter : (c.engine.after acting ev).Lapsed := by
    cases ev with
    | call call => exact h.call hidles hopen
    | wait seconds => exact ⟨h.flight, h.edits, h.status⟩
    | turn t =>
      cases t with
      | quietOver => exact hidles.elim
      | shownOver =>
        change (Engine.shownOver acting _).Lapsed
        rcases Engine.shownOver_cases acting { c.engine with shown := c.engine.shown.cancel } with
          heq | ⟨-, hsaved, -⟩
        · rw [heq]
          exact ⟨h.flight, h.edits, h.status⟩
        · cases h.status.symm.trans hsaved
      -- without a flight there is nothing else to happen to it
      | takeOff => cases hflight.symm.trans hready
      | updated answer =>
        obtain ⟨batch, hsaving⟩ := hready
        cases hflight.symm.trans hsaving
      | reloaded answer =>
        obtain ⟨batch, rows, load, hreloading⟩ := hready
        cases hflight.symm.trans hreloading
      | loaded load answer =>
        change (c.engine.turn acting (.loaded load answer)).Lapsed
        rw [Engine.turn_loaded]
        exact ⟨h.flight, h.edits, h.status⟩
  exact ⟨hafter.flight, hafter.edits, hafter.status⟩

/-- The status of an open engine agrees with its edits unless it has lapsed. It lapses exactly when
the store refuses a batch while there are no edits, and then stays so through all that happens until
an edit is made, edits are dropped, or the quiet period is over. -/
theorem status_agrees_iff {c : Course ω} (hc : c.Reachable Granted Aloof)
    (hopen : c.engine.closed = false) :
    (c.engine.Agrees ↔ ¬ c.engine.Lapsed) ∧
      ∀ (acting : Engine.Acting ω) (ev : Event ω), Aloof acting → c.Ready ev → c.Granted ev →
        (c.after acting ev).engine.closed = false →
        ((c.after acting ev).engine.Lapsed ↔
          (∃ batch f, c.engine.flight = .saving batch ∧ c.engine.edits.isEmpty = true ∧
            ev = .turn (.updated (.error f))) ∨
          (c.engine.Lapsed ∧ ev.Idles)) := by
  have hforeseen : c.Reachable (fun _ => Event.Foreseen) Aloof :=
    hc.mono (fun _ _ => And.left) fun _ => id
  have howed : Owed c.sent c.engine := hforeseen.owed hopen
  refine ⟨⟨?_, ?_⟩, ?_⟩
  · intro hagrees hlapsed
    exact hlapsed.not_fits (hagrees.landed hlapsed.flight)
  · intro hnot
    refine ⟨fun batch hbatch => ?_, fun hnone => ?_⟩
    · exact (howed.aloft batch hbatch).symm.imp_left And.left
    · exact (hc.fits_or_lapsed hopen hnone).resolve_right hnot
  · intro acting ev haloof hready hgranted hopen'
    constructor
    · intro hlapsed
      cases settles hc hopen haloof hready hgranted hopen' with
      | fits hfits => exact (hlapsed.not_fits (hfits hlapsed.flight)).elim
      | stays hidles hflight hstatus hedits =>
        refine .inr ⟨⟨?_, ?_, ?_⟩, hidles⟩
        · exact hflight.symm.trans hlapsed.flight
        · exact hedits ▸ hlapsed.edits
        · exact hstatus.symm.trans hlapsed.status
      | @failed batch f hflight hev hrests =>
        have hedits := (hrests hlapsed.flight).2
        exact .inl ⟨batch, f, hflight, hedits ▸ hlapsed.edits, hev⟩
    · rintro (⟨batch, f, hflight, hempty, rfl⟩ | ⟨hlapsed, hidles⟩)
      · have hafter := Engine.updated_lapsed haloof howed hopen hflight hempty f
        exact ⟨hafter.flight, hafter.edits, hafter.status⟩
      · exact lapsed_after hlapsed hready hidles hopen'

/-- An edit is sent and then dropped, and the store refuses its batch. -/
def refusedAfterDiscard : List (Event Unit) :=
  [.call (.change "key" "value"), .call .flushNow, .turn .takeOff, .call (.discard none)]

theorem granted_of_grants {c : Course ω} {call : Call ω} (h : c.engine.Grants call) :
    c.Granted (.call call) := by
  refine ⟨trivial, ?_⟩
  rintro _ ⟨⟩
  exact h

theorem reachable_refusedAfterDiscard :
    ((start [] [] 1 1).run .silent refusedAfterDiscard).Reachable Granted Aloof := by
  have hmeets : (start [] [] 1 1).Meets Granted .silent refusedAfterDiscard :=
    ⟨granted_of_grants rfl, granted_of_grants ⟨true, rfl⟩, ⟨trivial, nofun⟩,
      granted_of_grants ⟨["key"], rfl⟩, trivial⟩
  exact ⟨[], [], 1, 1, hmeets.leads aloof_silent (by decide)⟩

/-- The batch was dropped meanwhile, and the failure is shown with nothing left to save. -/
theorem refused_batch_lapses :
    let c : Course Unit := (start [] [] 1 1).run .silent refusedAfterDiscard
    let refused : Event Unit := .turn (.updated (.error (.plain .save none)))
    c.engine.Agrees ∧ (c.after .silent refused).engine.Lapsed := by
  intro c refused
  have hagrees := status_agrees_iff reachable_refusedAfterDiscard rfl
  have hgranted : c.Granted refused := ⟨trivial, nofun⟩
  refine ⟨hagrees.1.2 ?_, ?_⟩
  · intro hlapsed
    cases hlapsed.flight
  · apply (hagrees.2 .silent refused aloof_silent ⟨_, rfl⟩ hgranted rfl).2
    exact .inl ⟨_, _, rfl, rfl, rfl⟩

/-- An open engine without a flight and without edits that shows a failure. -/
theorem failure_shown_without_edits :
    ∃ c : Course Unit, c.Reachable Granted Aloof ∧ c.engine.closed = false ∧
      c.engine.flight = .none ∧ c.engine.edits.isEmpty = true ∧ c.engine.status = .error := by
  have hlast : (Course.after .silent ((start [] [] 1 1).run .silent refusedAfterDiscard)
      (.turn (.updated (.error (.plain .save none))))).Reachable Granted Aloof :=
    reachable_refusedAfterDiscard.trans
      (Leads.refl.step aloof_silent ⟨_, rfl⟩ ⟨trivial, nofun⟩)
  exact ⟨_, hlast, rfl, rfl, rfl, rfl⟩

end Course

end DeferredSave
