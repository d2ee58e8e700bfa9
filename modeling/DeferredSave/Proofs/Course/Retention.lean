import DeferredSave.Proofs.Course.Ledger

/-!
# No edit is lost

An edit stays in the buffer until it is replaced, dropped from outside, or stored: among all that
the engine does by itself, only the confirmation of a batch removes edits, and it removes those that
the batch holds.
-/

namespace DeferredSave

variable {ω : Type} {acting : Engine.Acting ω} {g : Engine ω}
  {admitted : Engine ω → Call ω → Prop}

/-! ## Calls that leave the edit of a key -/

/-- The call neither replaces nor drops an edit of the key. A closed engine takes no edits. -/
def Engine.Spares (key : String) (g : Engine ω) : Call ω → Prop
  | .change key' _ => key' = key → g.closed = true
  | .discard (some keys) => key ∉ keys
  | .discard none => False
  | _ => True

/-- The event is not a call that replaces or drops an edit of the key. -/
def Course.Spares (key : String) (c : Course ω) : Event ω → Prop
  | .call call => c.engine.Spares key call
  | _ => True

/-- The call leaves the edit of the key in the buffer, if there is one. Unlike a call that spares
the key, it may be one that would drop the edit. -/
def Engine.Retains (key : String) (g : Engine ω) : Call ω → Prop
  | .change key' _ => key' = key → g.closed = true
  | .discard keys? => ∀ e ∈ g.edits.edits, e.key = key → e ∈ (g.edits.discard keys?).1.edits
  | _ => True

/-- The event is not a call that replaces the edit of the key or drops it. -/
def Course.Retains (key : String) (c : Course ω) : Event ω → Prop
  | .call call => c.engine.Retains key call
  | _ => True

theorem Engine.Spares.retains {key : String} {c : Call ω} (h : g.Spares key c) :
    g.Retains key c := by
  cases c with
  | change => exact h
  | discard keys? =>
    cases keys? with
    | none => exact h.elim
    | some keys =>
      rintro e he rfl
      exact EditBuffer.mem_discard he h
  | flushNow | refresh | close | subscribe | unsubscribe => trivial

theorem Course.Spares.retains {key : String} {c : Course ω} {ev : Event ω} (h : c.Spares key ev) :
    c.Retains key ev := by
  cases ev with
  | call call => exact Engine.Spares.retains h
  | turn | wait => trivial

theorem Listening.retains {key : String} (h : Listening (Engine.Spares key) acting) :
    Listening (Engine.Retains key) acting :=
  h.mono fun _ _ hspares => hspares.retains

namespace Engine

variable {e : Edit}

/-- A call that leaves the edit of a key does not touch it. -/
theorem edit_abiding (e : Edit) :
    Abiding (Retains e.key) fun g : Engine ω => e ∈ g.edits.edits where
  unspoken := ⟨fun _ _ _ he => he, fun _ _ he => he⟩
  edit := by
    intro g key value hretains hopen he
    have hother : e.key ≠ key := by
      intro hkey
      cases (hretains hkey.symm).symm.trans hopen
    exact EditBuffer.mem_set.2 (.inl ⟨he, hother⟩)
  quiet := fun _ he => he
  drop := fun _ hretains he => hretains e he rfl
  rest := fun _ _ _ he => he
  close := fun he => he
  subscribe := fun _ _ he => he
  unsubscribe := fun _ he => he
  request := fun _ he => he
  launch := fun _ he => he
  load := fun he => he

end Engine

theorem Listening.keeps_edit {e : Edit} (h : Listening (Engine.Retains e.key) acting) :
    Keeps (fun g : Engine ω => e ∈ g.edits.edits) acting :=
  (Engine.edit_abiding e).keeps h

/-- An edit stays through an event that leaves it, unless the event confirms a batch that holds
it. -/
theorem Engine.after_retains_edit {sent : List Batch} {e : Edit} {ev : Event ω}
    (hledger : Ledger sent g) (hlisten : Listening (Engine.Retains e.key) acting)
    (hretains : ∀ c, ev = .call c → g.Retains e.key c) (he : e ∈ g.edits.edits)
    (hbatch : ∀ answer, ev = .turn (.reloaded answer) → ∀ batch rows load,
      g.flight = .reloading batch rows load → ¬ batch.Holds e) :
    e ∈ (g.after acting ev).edits.edits := by
  have hkeeps := hlisten.keeps_edit
  cases ev with
  | call c => exact (edit_abiding e).call hkeeps (hretains c rfl) he
  | wait seconds => exact he
  | turn t =>
    have hsteady : Steady (fun g : Engine ω => e ∈ g.edits.edits) acting :=
      ⟨hkeeps, fun _ h => h, fun h hedits _ _ => hedits.symm ▸ h⟩
    refine hsteady.turn he ?_
    rintro answer rfl batch rows load hflight
    have hknows : g.edits.Knows batch :=
      hledger.knows batch (hledger.flight batch (by rw [hflight]; rfl))
    exact (EditBuffer.mem_discardFlushed hledger.orderly hknows).2
      ⟨he, hbatch answer rfl batch rows load hflight⟩

/-- An edit stays through an event that spares its key, unless the event confirms a batch that holds
it. -/
theorem Engine.after_keeps_edit {sent : List Batch} {e : Edit} {ev : Event ω}
    (hledger : Ledger sent g) (hlisten : Listening (Engine.Spares e.key) acting)
    (hspares : ∀ c, ev = .call c → g.Spares e.key c) (he : e ∈ g.edits.edits)
    (hbatch : ∀ answer, ev = .turn (.reloaded answer) → ∀ batch rows load,
      g.flight = .reloading batch rows load → ¬ batch.Holds e) :
    e ∈ (g.after acting ev).edits.edits :=
  after_retains_edit hledger hlisten.retains (fun c hev => (hspares c hev).retains) he hbatch

/-! ## In the course of events -/

namespace Course

/-- The batch of a flight that loads the catalog is stored. -/
theorem stored_of_reloading {events : Course ω → Event ω → Prop} {c : Course ω}
    (h : c.Reachable events (Listening admitted)) {batch : Batch} {rows : List Setting} {load : Nat}
    (hflight : c.engine.flight = .reloading batch rows load) : batch ∈ c.stored := by
  obtain ⟨metas, rules, quietPeriod, shownFor, hleads⟩ := h
  induction hleads generalizing batch rows load with
  | refl => cases hflight
  | @step c acting ev _ hlisten _ _ ih =>
    have hafter : (c.engine.after acting ev).flight = .reloading batch rows load := hflight
    cases Engine.flown_after hlisten c.engine ev with
    | stays hstays =>
      have hstored := ih (hstays ▸ hafter)
      unfold after storedAfter
      split
      · exact List.mem_append_left _ hstored
      · exact hstored
    -- a flight that was just asked for, or has gone its round, loads nothing
    | asked _ hasked =>
      rw [hasked] at hafter
      cases hafter
    | rounded hrounded =>
      rcases hrounded with hr | ⟨_, hr⟩ <;> rw [hr] at hafter <;> cases hafter
    -- and one that starts to load has its batch from the answer of the store
    | reloads hsaving hev hreloads =>
      rw [hreloads] at hafter
      cases hafter
      subst hev
      change batch ∈ c.stored ++ c.engine.flight.batch?.toList
      rw [hsaving]
      exact List.mem_append_right _ (List.mem_singleton.2 rfl)

/-- An edit stays in the buffer as it is, through all events that spare its key, until a batch that
holds it is stored and about to be confirmed. A batch that was sent before the edit was made is
never such a batch. -/
theorem edit_stays_until_stored {c₀ c c' : Course ω} {e : Edit}
    (hc₀ : c₀.Reachable (fun _ _ => True) (Listening fun _ _ => True))
    (hc : c₀.Leads (fun _ _ => True) (Listening fun _ _ => True) c) (he : e ∈ c.engine.edits.edits)
    (hc' : c.Leads (Course.Spares e.key) (Listening (Engine.Spares e.key)) c') :
    e ∈ c'.engine.edits.edits ∨
      ∃ (c₁ : Course ω) (batch : Batch),
        c.Leads (Course.Spares e.key) (Listening (Engine.Spares e.key)) c₁ ∧
        c₁.Leads (Course.Spares e.key) (Listening (Engine.Spares e.key)) c' ∧
        e ∈ c₁.engine.edits.edits ∧
        (∃ rows load, c₁.engine.flight = .reloading batch rows load) ∧
        batch ∈ c₁.stored ∧ batch.Holds e ∧
        (c₀.engine.edits.issued < e.revision → batch ∉ c₀.sent) := by
  have hreach := hc₀.trans hc
  induction hc' with
  | refl => exact .inl he
  | @step c₁ acting ev hsteps hlisten hready hspares ih =>
    have hstep := Leads.refl.step hlisten hready hspares
    have hreach₁ := hreach.trans
      (hsteps.mono (fun _ _ _ => trivial) fun _ h => h.mono fun _ _ _ => trivial)
    rcases ih with he₁ | ⟨c₂, batch, hbefore, hafter, hrest⟩
    -- while the edit is there, the event either confirms a batch that holds it or leaves it
    · by_cases hconfirms : ∃ answer batch rows load, ev = .turn (.reloaded answer) ∧
          c₁.engine.flight = .reloading batch rows load ∧ batch.Holds e
      · obtain ⟨answer, batch, rows, load, rfl, hflight, hholds⟩ := hconfirms
        refine .inr ⟨c₁, batch, hsteps, hstep, he₁, ⟨rows, load, hflight⟩,
          stored_of_reloading hreach₁ hflight, hholds, ?_⟩
        -- the batches of that time are known to the buffer, which had not issued the revision yet
        intro hlater hsent
        have hknows := hc₀.sound.ledger.knows batch (List.mem_append_left _ hsent)
        have hle := hknows.issued e hholds
        omega
      · have hcall : ∀ call, ev = .call call → c₁.engine.Spares e.key call := by
          rintro call rfl
          exact hspares
        refine .inl (Engine.after_keeps_edit hreach₁.sound.ledger hlisten hcall he₁ ?_)
        intro answer hev batch rows load hflight hholds
        exact hconfirms ⟨answer, batch, rows, load, hev, hflight, hholds⟩
    · exact .inr ⟨c₂, batch, hbefore, hafter.step hlisten hready hspares, hrest⟩

/-- An edit that is saved at once leaves the buffer, and a batch that holds it is stored. -/
theorem edit_leaves_once_stored :
    let c : Course Unit := (start [] [] 1 1).run .silent [.call (.change "key" "value")]
    let c' := c.run .silent
      [.call .flushNow, .turn .takeOff, .turn (.updated (.ok [])), .turn (.reloaded (.ok []))]
    c'.engine.edits.edits = [] ∧
      ∃ (c₁ : Course Unit) (batch : Batch),
        ⟨"key", "value", 1⟩ ∈ c₁.engine.edits.edits ∧ batch ∈ c₁.stored ∧
          batch.Holds ⟨"key", "value", 1⟩ := by
  intro c c'
  have hc₀ : (start [] [] 1 1 : Course Unit).Reachable (fun _ _ => True)
      (Listening fun _ _ => True) :=
    ⟨[], [], 1, 1, .refl⟩
  have hc : (start [] [] 1 1).Leads (fun _ _ => True) (Listening fun _ _ => True) c :=
    leads_run (.aloof aloof_silent) (by decide) fun _ _ _ => trivial
  have hc' : c.Leads (Course.Spares "key") (Listening (Engine.Spares "key")) c' :=
    leads_run (.aloof aloof_silent) (by decide) (by
      intro _ ev hev
      simp only [List.mem_cons, List.not_mem_nil, or_false] at hev
      rcases hev with rfl | rfl | rfl | rfl <;> trivial)
  have hgone : c'.engine.edits.edits = [] := rfl
  rcases edit_stays_until_stored (e := ⟨"key", "value", 1⟩) hc₀ hc (by decide) hc' with
    hthere | ⟨c₁, batch, -, -, he, -, hstored, hholds, -⟩
  · rw [hgone] at hthere
    cases hthere
  · exact ⟨hgone, c₁, batch, he, hstored, hholds⟩

end Course

end DeferredSave
