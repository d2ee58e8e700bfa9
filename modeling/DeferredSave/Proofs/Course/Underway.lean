import DeferredSave.Proofs.Course.Retention

/-!
# Which batch is under way

A batch that was sent is under way until its save is answered (`Engine.saving_stays`). When another
one is sent, it is a copy of the edits of that moment; so what listeners and the engine keep true of
the edits can be said of each batch that is sent from then on (`Engine.Steady.carries_turn`). What
is said of the edits of one key is kept by all that leaves the edit of this key (`Engine.Only`).
-/

namespace DeferredSave

variable {ω : Type} {acting : Engine.Acting ω} {g g' : Engine ω}
  {admitted : Engine ω → Call ω → Prop} {ev : Event ω}

namespace Engine

/-! ## Until the flight is answered -/

theorem flying_of_batch {batch : Batch} (h : g.flight.batch? = some batch) : g.flying = true := by
  cases hflight : g.flight with
  | none | waiting =>
    rw [hflight] at h
    cases h
  | saving | reloading => simp [flying, hflight]

theorem call_flight (hlisten : Listening admitted acting) (g : Engine ω) (c : Call ω) :
    (g.call acting c).flight = g.flight ∨
      (g.flight = .none ∧ (g.call acting c).flight = .waiting) := by
  cases hwaits : c.waits with
  | false => exact .inl (Beside.call (hlisten.beside g) (.refl g) hwaits).flight
  | true =>
    cases c with
    | flushNow =>
      change g.flushNow.1.flight = _ ∨ (_ ∧ g.flushNow.1.flight = _)
      rcases flushNow_cases g with
        ⟨-, heq⟩ | ⟨-, -, heq⟩ | ⟨-, -, -, heq⟩ | ⟨-, hflying, -, heq⟩
      · exact .inl (by rw [heq])
      · exact .inl (by rw [heq])
      · exact .inl (by rw [heq])
      · exact .inr ⟨by simpa [flying] using hflying, by rw [heq]; rfl⟩
    | refresh =>
      change g.refresh.1.flight = _ ∨ (_ ∧ g.refresh.1.flight = _)
      unfold refresh
      split <;> exact .inl rfl
    | change | discard | close | subscribe | unsubscribe => cases hwaits

/-- A flight stays where it is until it is answered. -/
theorem flight_stays (hlisten : Listening admitted acting) (hflying : g.flying = true)
    (htakeOff : ev ≠ .turn .takeOff) (hupdated : ∀ answer, ev ≠ .turn (.updated answer))
    (hreloaded : ∀ answer, ev ≠ .turn (.reloaded answer)) :
    (g.after acting ev).flight = g.flight := by
  cases ev with
  | wait seconds => rfl
  | call c =>
    obtain hstays | ⟨hnone, -⟩ := call_flight hlisten g c
    · exact hstays
    · simp [flying, hnone] at hflying
  | turn t =>
    cases t with
    | quietOver =>
      change (quietOver _).flight = _
      rcases quietOver_cases { g with quiet := g.quiet.cancel } with
        ⟨-, heq⟩ | ⟨-, -, heq⟩ | ⟨-, hnot, -⟩
      · rw [heq]
      · rw [heq]
      · cases hflying.symm.trans hnot
    | shownOver =>
      change (shownOver acting _).flight = _
      rcases shownOver_cases acting { g with shown := g.shown.cancel } with heq | ⟨-, -, htold⟩
      · rw [heq]
      · exact htold.flight hlisten
    | takeOff => exact (htakeOff rfl).elim
    | updated answer => exact (hupdated answer rfl).elim
    | reloaded answer => exact (hreloaded answer rfl).elim
    | loaded load answer =>
      change (g.turn acting (.loaded load answer)).flight = _
      rw [turn_loaded]
      rfl

/-- A batch that was sent stays under way until its save is answered. -/
theorem saving_stays (hlisten : Listening admitted acting) {batch : Batch}
    (hsaving : g.flight = .saving batch) (htakeOff : ev ≠ .turn .takeOff)
    (hupdated : ∀ answer, ev ≠ .turn (.updated answer)) :
    (g.after acting ev).flight = .saving batch := by
  by_cases hreloaded : ∃ answer, ev = .turn (.reloaded answer)
  · -- such an answer is not one that the flight waits for
    obtain ⟨answer, rfl⟩ := hreloaded
    change (g.reloaded acting answer).flight = _
    simp [reloaded, hsaving]
  · have hflying : g.flying = true :=
      flying_of_batch (show g.flight.batch? = some batch by rw [hsaving]; rfl)
    rw [flight_stays hlisten hflying htakeOff hupdated fun answer hev => hreloaded ⟨answer, hev⟩]
    exact hsaving

/-! ## What is true of each batch -/

/-- The batch that is under way, if there is one, is as said. -/
def Carries (Q : Batch → Prop) (g : Engine ω) : Prop :=
  ∀ batch, g.flight.batch? = some batch → Q batch

theorem carries_land {Q : Batch → Prop} (g : Engine ω) (failure? : Option Failure) :
    (g.land failure?).Carries Q :=
  nofun

theorem Carries.call {Q : Batch → Prop} (h : g.Carries Q) (hlisten : Listening admitted acting)
    (c : Call ω) : (g.call acting c).Carries Q := by
  intro batch hbatch
  obtain hstays | ⟨-, hwaiting⟩ := call_flight hlisten g c
  · exact h batch (hstays ▸ hbatch)
  · rw [hwaiting] at hbatch
    cases hbatch

section Carrying

variable {P : Engine ω → Prop} {Q : Batch → Prop} (hsteady : Steady P acting)
  (hsnapshot : ∀ g, P g → Q g.edits.snapshot)
include hsteady hsnapshot

omit hsteady in
theorem carries_sendBatch (h : P g) : (g.sendBatch acting).Carries Q := by
  rcases sendBatch_cases acting g with
    ⟨-, -, g', -, heq⟩ | ⟨-, -, g', -, heq⟩ | ⟨-, failure?, heq⟩
  · exact heq ▸ carries_land _ _
  · rw [heq]
    rintro _ ⟨⟩
    exact hsnapshot g h
  · exact heq ▸ carries_land _ _

theorem Steady.carries_endRound (h : P g) : (g.endRound acting).Carries Q := by
  have hdone : P { g with requested := false } := hsteady.aside h rfl rfl rfl
  rcases endRound_cases acting g with ⟨-, heq⟩ | ⟨-, heq⟩
  · exact heq ▸ carries_sendBatch hsnapshot hdone
  · exact heq ▸ carries_land _ _

theorem Steady.carries_updated (h : P g) (hbatch : g.Carries Q)
    (answer : Except Failure (List Setting)) : (g.updated acting answer).Carries Q := by
  cases hflight : g.flight with
  | saving batch =>
    rcases updated_cases acting hflight answer with
      ⟨-, heq⟩ | ⟨-, rows, -, heq⟩ | ⟨-, f, -, ⟨-, failure?, heq⟩ | ⟨g', htold, heq⟩⟩
    · exact heq ▸ hsteady.carries_endRound hsnapshot h
    · rw [heq]
      rintro _ ⟨⟩
      exact hbatch batch (by rw [hflight]; rfl)
    · exact heq ▸ carries_land _ _
    · exact heq ▸ hsteady.carries_endRound hsnapshot (hsteady.told htold h)
  | none | waiting | reloading => simpa [Engine.updated, hflight] using hbatch

theorem Steady.carries_showSaved (h : P g) : (g.showSaved acting).Carries Q := by
  rcases showSaved_cases acting g with ⟨-, g', htold, heq⟩ | ⟨-, g', htold, heq⟩
  · have hshown : P { g' with shown := g'.shown.arm g'.now } :=
      hsteady.aside (hsteady.told htold h) rfl rfl rfl
    exact heq ▸ hsteady.carries_endRound hsnapshot hshown
  · exact heq ▸ hsteady.carries_endRound hsnapshot (hsteady.told htold h)

theorem Steady.carries_confirm {batch : Batch}
    (h : P { g with edits := (g.edits.discardFlushed batch).1 }) (rows : List Setting)
    (installed : Bool) : (g.confirm acting batch rows installed).Carries Q := by
  have hdone : P (g.confirmed batch rows installed) := hsteady.aside h rfl rfl rfl
  rcases confirm_cases acting g batch rows installed with
    ⟨failure, -, heq⟩ | ⟨-, heq⟩ | ⟨-, heq⟩
  · exact heq ▸ carries_land _ _
  · exact heq ▸ hsteady.carries_showSaved hsnapshot hdone
  · exact heq ▸ hsteady.carries_endRound hsnapshot hdone

theorem Steady.carries_reloaded (h : P g) (hbatch : g.Carries Q)
    (hdropped : ∀ batch, P { g with edits := (g.edits.discardFlushed batch).1 })
    (answer : Except Failure Categories) : (g.reloaded acting answer).Carries Q := by
  cases hflight : g.flight with
  | reloading batch rows load =>
    have hload : P (g.withLoad load answer) := hsteady.aside h rfl rfl rfl
    rcases reloaded_cases acting hflight answer with
      ⟨-, heq⟩ | ⟨f, -, -, heq⟩ | ⟨-, -, heq⟩
    · exact heq ▸ hsteady.carries_endRound hsnapshot hload
    · exact heq ▸ carries_land _ _
    · have hconfirmed : P { g.withLoad load answer with
          edits := ((g.withLoad load answer).edits.discardFlushed batch).1 } :=
        hsteady.aside (hdropped batch) rfl rfl rfl
      exact heq ▸ hsteady.carries_confirm hsnapshot hconfirmed rows _
  | none | waiting | saving => simpa [Engine.reloaded, hflight] using hbatch

theorem Steady.carries_turn (hlisten : Listening admitted acting) (h : P g) (hbatch : g.Carries Q)
    (hdropped : ∀ batch, P { g with edits := (g.edits.discardFlushed batch).1 }) (t : Turn) :
    (g.turn acting t).Carries Q := by
  cases t with
  | quietOver =>
    change (Engine.quietOver _).Carries Q
    rcases quietOver_cases { g with quiet := g.quiet.cancel } with
      ⟨-, heq⟩ | ⟨-, -, heq⟩ | ⟨-, -, heq⟩
    · rwa [heq]
    · rwa [heq]
    · rw [heq]
      exact nofun
  | shownOver =>
    change (Engine.shownOver acting _).Carries Q
    rcases shownOver_cases acting { g with shown := g.shown.cancel } with heq | ⟨-, -, htold⟩
    · rwa [heq]
    · intro batch hafter
      rw [htold.flight hlisten] at hafter
      exact hbatch batch hafter
  | takeOff =>
    have hdone : P { g with requested := false } := hsteady.aside h rfl rfl rfl
    exact carries_sendBatch hsnapshot hdone
  | updated answer => exact hsteady.carries_updated hsnapshot h hbatch answer
  | reloaded answer => exact hsteady.carries_reloaded hsnapshot h hbatch hdropped answer
  | loaded load answer =>
    rw [turn_loaded]
    exact hbatch

end Carrying

/-! ## The edits of one key -/

/-- The edits of the key are as said. -/
def Only (key : String) (R : Edit → Prop) (g : Engine ω) : Prop :=
  ∀ e ∈ g.edits.edits, e.key = key → R e

variable {key : String} {R : Edit → Prop}

theorem Only.of_sublist (h : g.Only key R) (hsub : g'.edits.edits.Sublist g.edits.edits) :
    g'.Only key R :=
  fun e he => h e (hsub.subset he)

theorem Only.discardFlushed (h : g.Only key R) (batch : Batch) :
    Only key R { g with edits := (g.edits.discardFlushed batch).1 } :=
  h.of_sublist (g.edits.discardFlushed_sublist batch).1

theorem only_abiding (key : String) (R : Edit → Prop) :
    Abiding (Retains key) (Only key R : Engine ω → Prop) where
  unspoken := ⟨fun _ _ _ h => h, fun _ _ h => h⟩
  edit := by
    intro g key' value hretains hopen h e he hkey
    rcases EditBuffer.mem_set.1 he with ⟨he, -⟩ | rfl
    · exact h e he hkey
    · -- an open engine is spared edits of the key
      cases (hretains hkey).symm.trans hopen
  quiet := fun _ h => h
  drop := fun {g} keys? _ h => h.of_sublist (g.edits.discard_sublist keys?).1
  rest := fun _ _ _ h => h
  close := fun h => h
  subscribe := fun _ _ h => h
  unsubscribe := fun _ h => h
  request := fun _ h => h
  launch := fun _ h => h
  load := fun h => h

theorem steady_only (hlisten : Listening (Retains key) acting) (R : Edit → Prop) :
    Steady (Only key R : Engine ω → Prop) acting where
  keeps := (only_abiding key R).keeps hlisten
  shows := fun _ h => h
  aside := fun h hedits _ _ => h.of_sublist (hedits ▸ List.Sublist.refl _)

theorem Only.after (h : g.Only key R) (hlisten : Listening (Retains key) acting)
    (hretains : ∀ c, ev = .call c → g.Retains key c) : (g.after acting ev).Only key R := by
  have hsteady := steady_only hlisten R
  cases ev with
  | call c => exact (only_abiding key R).call hsteady.keeps (hretains c rfl) h
  | wait seconds => exact h
  | turn t => exact hsteady.turn h fun _ _ batch _ _ _ => h.discardFlushed batch

/-- Without edits of the key no batch has an entry of it. -/
theorem Only.not_mem_snapshot (h : g.Only key fun _ => False) : key ∉ g.edits.snapshot.keys := by
  intro hmem
  simp only [Batch.keys, EditBuffer.snapshot, EditBuffer.items, List.map_map, List.mem_map] at hmem
  obtain ⟨e, he, hkey⟩ := hmem
  exact h e he hkey

/-! ## Where an edit leaves the buffer -/

variable {e : Edit} {sent : List Batch}

/-- There is one edit of each key. -/
theorem only_of_mem (h : Ledger sent g) (he : e ∈ g.edits.edits) : g.Only e.key (· = e) := by
  intro e' he' hkey
  have hfound := EditBuffer.find?_of_mem h.orderly.nodup he'
  rw [hkey, EditBuffer.find?_of_mem h.orderly.nodup he] at hfound
  exact (Option.some.inj hfound).symm

/-- When a batch that holds the only edit of its key is confirmed, none is left of that key. -/
theorem Only.confirmed (h : g.Only e.key (· = e)) (hledger : Ledger sent g) {batch : Batch}
    (hbatch : g.flight.batch? = some batch) (hholds : batch.Holds e) :
    Only e.key (fun _ => False) { g with edits := (g.edits.discardFlushed batch).1 } := by
  intro e' he' hkey
  have hknows : g.edits.Knows batch := hledger.knows batch (hledger.flight batch hbatch)
  obtain ⟨he', hnot⟩ := (EditBuffer.mem_discardFlushed hledger.orderly hknows).1 he'
  exact hnot (h e' he' hkey ▸ hholds)

/-- If no call takes it away, an edit leaves only when a batch that holds it is confirmed. -/
theorem confirms_of_leaves (hledger : Ledger sent g) (hlisten : Listening (Retains e.key) acting)
    (hretains : ∀ c, ev = .call c → g.Retains e.key c) (he : e ∈ g.edits.edits)
    (hgone : e ∉ (g.after acting ev).edits.edits) :
    ∃ answer batch rows load, ev = .turn (.reloaded answer) ∧
      g.flight = .reloading batch rows load ∧ batch.Holds e ∧ g.closed = false ∧
      (∀ f, answer = .error f → f.isFetch = true) := by
  -- otherwise the edit would have stayed
  obtain ⟨answer, batch, rows, load, rfl, hflight, hholds⟩ : ∃ answer batch rows load,
      ev = .turn (.reloaded answer) ∧ g.flight = .reloading batch rows load ∧ batch.Holds e := by
    apply Classical.byContradiction
    intro hnone
    apply hgone
    refine after_retains_edit hledger hlisten hretains he ?_
    intro answer hev batch rows load hflight hholds
    exact hnone ⟨answer, batch, rows, load, hev, hflight, hholds⟩
  refine ⟨answer, batch, rows, load, rfl, hflight, hholds, ?_⟩
  have hsteady : Steady (fun g : Engine ω => e ∈ g.edits.edits) acting :=
    ⟨hlisten.keeps_edit, fun _ h => h, fun h hedits _ _ => hedits.symm ▸ h⟩
  change e ∉ (g.reloaded acting answer).edits.edits at hgone
  rcases reloaded_cases acting hflight answer with
    ⟨-, heq⟩ | ⟨f, -, -, heq⟩ | ⟨hopen, hanswer, -⟩
  · rw [heq] at hgone
    exact (hgone (hsteady.endRound (hsteady.aside he rfl rfl rfl))).elim
  · rw [heq] at hgone
    exact (hgone he).elim
  · exact ⟨hopen, hanswer⟩

/-- From then on there is no edit of the key, neither in the buffer nor under way. -/
theorem Only.reloaded (h : g.Only e.key (· = e)) (hledger : Ledger sent g)
    (hlisten : Listening (Retains e.key) acting) {batch : Batch} {rows : List Setting} {load : Nat}
    (hflight : g.flight = .reloading batch rows load) (hholds : batch.Holds e)
    (hopen : g.closed = false) {answer : Except Failure Categories}
    (hanswer : ∀ f, answer = .error f → f.isFetch = true) :
    (g.reloaded acting answer).Only e.key (fun _ => False) ∧
      (g.reloaded acting answer).Carries fun batch => e.key ∉ batch.keys := by
  have hbatch : g.flight.batch? = some batch := by rw [hflight]; rfl
  have hsteady := steady_only hlisten fun _ => False
  have hdropped : Only e.key (fun _ => False) { g.withLoad load answer with
      edits := ((g.withLoad load answer).edits.discardFlushed batch).1 } :=
    hsteady.aside (h.confirmed hledger hbatch hholds) rfl rfl rfl
  rw [reloaded_of_open hflight hopen hanswer]
  exact ⟨hsteady.confirm hdropped rows _,
    hsteady.carries_confirm (fun _ => not_mem_snapshot) hdropped rows _⟩

end Engine

end DeferredSave
