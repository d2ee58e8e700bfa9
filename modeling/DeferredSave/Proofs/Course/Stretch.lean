import DeferredSave.Proofs.Course.Listeners

/-!
# What an engine does in one stretch

For every function of the engine, all that it can do: where it stops, and which listeners it has
told on its way. Nothing else has to know how these functions are written.
-/

namespace DeferredSave.Engine

variable {ω : Type} {acting : Acting ω} {g : Engine ω}

theorem flight_of_not_flying (h : g.flying = false) : g.flight = .none := by
  simpa [flying] using h

/-! ## Calls -/

/-- An edit is always allowed to show. -/
theorem canBecome_pending (s : Status) : s.canBecome .pending = true := by
  cases s <;> rfl

/-- The engine with an edit made, before anybody is told. -/
def edit (g : Engine ω) (key value : String) : Engine ω :=
  { g with edits := g.edits.set key value, edited := true, shown := g.shown.cancel }

theorem change_of_open (acting : Acting ω) (h : g.closed = false) (key value : String) :
    ∃ g', Told acting .pending ((g.edit key value).shows .edit) g' ∧
      (g.change acting key value).1 = { g' with quiet := g'.quiet.arm g'.now } := by
  obtain ⟨g', htold, hfire⟩ :=
    fire_of_canBecome (g := g.edit key value) (e := .edit) acting (canBecome_pending _)
  refine ⟨g', htold, ?_⟩
  unfold edit at hfire
  unfold change
  rw [if_neg (by simp [h])]
  dsimp only
  rw [hfire]

theorem change_of_closed (h : g.closed = true) (key value : String) :
    (g.change acting key value).1 = g := by
  simp [change, h]

theorem showsEdits_iff : g.showsEdits = true ↔ g.status = .pending ∨ g.status = .error := by
  simp [showsEdits]

theorem canBecome_idle (h : g.showsEdits = true) : g.status.canBecome .idle = true := by
  rcases showsEdits_iff.1 h with h | h <;> rw [h] <;> rfl

/-- Dropping edits stops the quiet period if none is left, and shows that there is none unless a
flight is under way. -/
theorem discard_cases (acting : Acting ω) (g : Engine ω) (keys? : Option (List String)) :
    (g.discard acting keys?).1 = { g with edits := (g.edits.discard keys?).1 } ∨
      ((g.edits.discard keys?).1.isEmpty = true ∧
        ((g.discard acting keys?).1 =
            { g with edits := (g.edits.discard keys?).1, quiet := g.quiet.cancel } ∨
          (g.flying = false ∧ g.showsEdits = true ∧ ∃ g',
            Told acting .idle
              ({ g with edits := (g.edits.discard keys?).1, quiet := g.quiet.cancel }.shows .idle)
              g' ∧
            (g.discard acting keys?).1 = g'))) := by
  unfold discard
  rcases hd : g.edits.discard keys? with ⟨edits, missing | dropped⟩
  · exact .inl rfl
  · dsimp only
    split
    · exact .inl rfl
    · rename_i hempty
      refine .inr ⟨by simpa using hempty, ?_⟩
      split
      · exact .inl rfl
      · rename_i hshows
        rw [Bool.or_eq_true, not_or] at hshows
        have hedits : g.showsEdits = true :=
          Bool.of_not_eq_false fun hf => hshows.2 (congrArg not hf)
        refine .inr ⟨Bool.eq_false_iff.2 hshows.1, hedits, ?_⟩
        obtain ⟨g', htold, hfire⟩ :=
          fire_of_canBecome (g := { g with edits, quiet := g.quiet.cancel }) (e := .idle) acting
            (canBecome_idle hedits)
        rw [hfire]
        exact ⟨g', htold, rfl⟩

theorem flushNow_cases (g : Engine ω) :
    (g.closed = true ∧ g.flushNow.1 = g) ∨
      (g.closed = false ∧ g.flying = true ∧
        g.flushNow.1 = { g with quiet := g.quiet.cancel, requested := true }) ∨
      (g.closed = false ∧ g.flying = false ∧ g.edits.isEmpty = true ∧
        g.flushNow.1 = { g with quiet := g.quiet.cancel }) ∨
      (g.closed = false ∧ g.flying = false ∧ g.edits.isEmpty = false ∧
        g.flushNow.1 = { g with quiet := g.quiet.cancel }.launch) := by
  unfold flushNow
  split
  · rename_i h
    exact .inl ⟨h, rfl⟩
  · rename_i hopen
    refine .inr ?_
    dsimp only
    split
    · rename_i hfly
      exact .inl ⟨by simpa using hopen, hfly, rfl⟩
    · rename_i hfly
      split
      · rename_i hempty
        exact .inr (.inl ⟨by simpa using hopen, Bool.eq_false_iff.2 hfly, hempty, rfl⟩)
      · rename_i hempty
        exact .inr (.inr ⟨by simpa using hopen, Bool.eq_false_iff.2 hfly,
          Bool.eq_false_iff.2 hempty, rfl⟩)

theorem indicator_unsubscribe (g : Engine ω) (handle : Nat) :
    (g.unsubscribe handle).board.indicator = g.board.indicator := by
  unfold unsubscribe Board.unsubscribe
  dsimp only
  split <;> rfl

theorem status_unsubscribe (g : Engine ω) (handle : Nat) :
    (g.unsubscribe handle).status = g.status :=
  congrArg Indicator.status (g.indicator_unsubscribe handle)

/-! ## Timers -/

theorem quietOver_cases (g : Engine ω) :
    (g.closed = true ∧ g.quietOver = g) ∨
      (g.closed = false ∧ g.flying = true ∧ g.quietOver = { g with requested := true }) ∨
      (g.closed = false ∧ g.flying = false ∧ g.quietOver = g.launch) := by
  unfold quietOver
  split
  · rename_i h
    exact .inl ⟨h, rfl⟩
  · rename_i hopen
    refine .inr ?_
    split
    · rename_i hfly
      exact .inl ⟨by simpa using hopen, hfly, rfl⟩
    · rename_i hfly
      exact .inr ⟨by simpa using hopen, by simpa using hfly, rfl⟩

/-- An open engine that shows a save shows it no longer. -/
theorem shownOver_of_saved (acting : Acting ω) (hopen : g.closed = false)
    (hsaved : g.status = .saved) : Told acting .idle (g.shows .idle) (g.shownOver acting) := by
  obtain ⟨g', htold, hfire⟩ :=
    fire_of_canBecome (g := g) (e := .idle) acting (by rw [hsaved]; rfl)
  unfold shownOver
  rw [if_pos (by simp [hopen, hsaved]), hfire]
  exact htold

theorem shownOver_cases (acting : Acting ω) (g : Engine ω) :
    g.shownOver acting = g ∨
      (g.closed = false ∧ g.status = .saved ∧
        Told acting .idle (g.shows .idle) (g.shownOver acting)) := by
  by_cases h : g.closed = false ∧ g.status = .saved
  · exact .inr ⟨h.1, h.2, shownOver_of_saved acting h.1 h.2⟩
  · refine .inl ?_
    unfold shownOver
    rw [if_neg (by simpa using h)]

/-! ## The flight -/

/-- A batch is sent, unless there is nothing to send or the indicator does not allow it. -/
theorem sendBatch_cases (acting : Acting ω) (g : Engine ω) :
    (g.edits.isEmpty = true ∧ g.status.canBecome .idle = true ∧ ∃ g',
        Told acting .idle ({ g with edited := false }.shows .idle) g' ∧
        g.sendBatch acting = { g' with requested := false }.land none) ∨
      (g.edits.isEmpty = false ∧ g.status.canBecome .saving = true ∧ ∃ g',
        Told acting .saving ({ g with edited := false }.shows .saving) g' ∧
        g.sendBatch acting =
          { g' with flight := .saving g.edits.snapshot }.emit (.update g.edits.snapshot)) ∨
      (g.status.canBecome (if g.edits.isEmpty then .idle else .saving) = false ∧ ∃ failure?,
        g.sendBatch acting = { g with edited := false }.land failure?) := by
  unfold sendBatch
  dsimp only
  rw [EditBuffer.snapshot_isEmpty]
  split
  · rename_i hempty
    rcases fire_cases acting { g with edited := false } .idle with
      ⟨hc, hfire⟩ | ⟨hc, g', htold, hfire⟩
    · rw [hfire, hempty]
      exact .inr (.inr ⟨hc, _, rfl⟩)
    · rw [hfire]
      exact .inl ⟨hempty, hc, g', htold, rfl⟩
  · rename_i hempty
    rw [Bool.not_eq_true] at hempty
    refine .inr ?_
    rcases fire_cases acting { g with edited := false } .saving with
      ⟨hc, hfire⟩ | ⟨hc, g', htold, hfire⟩
    · rw [hfire, hempty]
      exact .inr ⟨hc, _, rfl⟩
    · rw [hfire]
      exact .inl ⟨hempty, hc, g', htold, rfl⟩

theorem goesAround_iff :
    g.goesAround = true ↔
      g.requested = true ∧ g.edited = true ∧ g.edits.isEmpty = false ∧ g.closed = false := by
  simp [goesAround, and_assoc]

/-- At the end of a round the flight goes round again or lands. -/
theorem endRound_cases (acting : Acting ω) (g : Engine ω) :
    (g.goesAround = true ∧ g.endRound acting = sendBatch acting { g with requested := false }) ∨
      (g.goesAround = false ∧ g.endRound acting = { g with requested := false }.land none) := by
  unfold endRound
  dsimp only
  split
  · rename_i h
    exact .inl ⟨h, rfl⟩
  · rename_i h
    exact .inr ⟨Bool.eq_false_iff.2 h, rfl⟩

/-- The engine when it has asked for the catalog on behalf of a stored batch. -/
def reloads (g : Engine ω) (batch : Batch) (rows : List Setting) : Engine ω :=
  { g.startLoad with flight := .reloading batch rows g.startLoad.loads }.emit .reload

theorem updated_cases (acting : Acting ω) {batch : Batch} (h : g.flight = .saving batch)
    (answer : Except Failure (List Setting)) :
    (g.closed = true ∧ g.updated acting answer = g.endRound acting) ∨
      (g.closed = false ∧ ∃ rows, answer = .ok rows ∧
        g.updated acting answer = g.reloads batch rows) ∨
      (g.closed = false ∧ ∃ f, answer = .error f ∧
        ((g.status.canBecome .error = false ∧ ∃ failure?,
            g.updated acting answer = g.land failure?) ∨
          (∃ g', Told acting .error (g.shows (.failed (saveError f))) g' ∧
            g.updated acting answer = g'.endRound acting))) := by
  unfold updated
  rw [h]
  dsimp only
  split
  · rename_i hclosed
    exact .inl ⟨hclosed, rfl⟩
  · rename_i hopen
    rw [Bool.not_eq_true] at hopen
    refine .inr ?_
    cases answer with
    | ok rows => exact .inl ⟨hopen, rows, rfl, rfl⟩
    | error f =>
      refine .inr ⟨hopen, f, rfl, ?_⟩
      dsimp only
      rcases fire_cases acting g (.failed (saveError f)) with ⟨hc, hfire⟩ | ⟨-, g', htold, hfire⟩
      · rw [hfire]
        exact .inl ⟨hc, _, rfl⟩
      · rw [hfire]
        exact .inr ⟨g', htold, rfl⟩

theorem updated_ok {batch : Batch} {rows : List Setting} (h : g.flight = .saving batch)
    (hopen : g.closed = false) : g.updated acting (.ok rows) = g.reloads batch rows := by
  rcases updated_cases acting h (.ok rows) with ⟨hclosed, -⟩ | ⟨-, _, ⟨⟩, heq⟩ | ⟨-, _, hf, -⟩
  · exact absurd (hclosed.symm.trans hopen) nofun
  · exact heq
  · cases hf

theorem canBecome_idle_of_ne {s : Status} (h : s ≠ .saving) : s.canBecome .idle = true := by
  cases s <;> first | rfl | exact absurd rfl h

/-- When all is saved, the indicator shows it for a while if it shows the save itself. -/
theorem showSaved_cases (acting : Acting ω) (g : Engine ω) :
    (g.status = .saving ∧ ∃ g', Told acting .saved (g.shows .saved) g' ∧
        g.showSaved acting = endRound acting { g' with shown := g'.shown.arm g'.now }) ∨
      (g.status ≠ .saving ∧ ∃ g', Told acting .idle (g.shows .idle) g' ∧
        g.showSaved acting = g'.endRound acting) := by
  unfold showSaved
  split
  · rename_i h
    obtain ⟨g', htold, hfire⟩ :=
      fire_of_canBecome (g := g) (e := .saved) acting (by rw [h]; rfl)
    rw [hfire]
    exact .inl ⟨h, g', htold, rfl⟩
  · rename_i h
    obtain ⟨g', htold, hfire⟩ :=
      fire_of_canBecome (g := g) (e := .idle) acting (canBecome_idle_of_ne h)
    rw [hfire]
    exact .inr ⟨h, g', htold, rfl⟩

/-- The engine with a stored batch in its catalog and no longer among its edits. -/
def confirmed (g : Engine ω) (batch : Batch) (rows : List Setting) (installed : Bool) : Engine ω :=
  { g with
    catalog := if installed then g.catalog else g.catalog.withUpdates rows
    edits := (g.edits.discardFlushed batch).1 }

/-- A batch that does not fit its revisions breaks the flight off. -/
theorem confirm_cases (acting : Acting ω) (g : Engine ω) (batch : Batch) (rows : List Setting)
    (installed : Bool) :
    (∃ failure, (g.edits.discardFlushed batch).2 = .error failure ∧
        g.confirm acting batch rows installed =
          (g.confirmed batch rows installed).land (some (.lengthMismatch failure))) ∨
      ((g.confirmed batch rows installed).edits.isEmpty = true ∧
        g.confirm acting batch rows installed =
          (g.confirmed batch rows installed).showSaved acting) ∨
      ((g.confirmed batch rows installed).edits.isEmpty = false ∧
        g.confirm acting batch rows installed =
          (g.confirmed batch rows installed).endRound acting) := by
  have hcatalog : (if installed then g else { g with catalog := g.catalog.withUpdates rows }) =
      { g with catalog := if installed then g.catalog else g.catalog.withUpdates rows } := by
    cases installed <;> rfl
  unfold confirm confirmed
  dsimp only
  rw [hcatalog]
  rcases g.edits.discardFlushed batch with ⟨edits, failure | dropped⟩
  · exact .inl ⟨failure, rfl, rfl⟩
  · refine .inr ?_
    dsimp only
    split
    · rename_i hempty
      exact .inl ⟨hempty, rfl⟩
    · rename_i hempty
      exact .inr ⟨Bool.eq_false_iff.2 hempty, rfl⟩

/-! ## Loads -/

/-- The catalog once a load is answered: the newest load of an open engine brings a new one. -/
def loadedCatalog (g : Engine ω) (load : Nat) : Except Failure Categories → Catalog
  | .ok categories => if g.outdated load then g.catalog else ⟨categories⟩
  | .error _ => g.catalog

/-- The engine once a load is answered. -/
def withLoad (g : Engine ω) (load : Nat) (answer : Except Failure Categories) : Engine ω :=
  { g with
    loading := if load = g.loads then false else g.loading
    catalog := g.loadedCatalog load answer }

theorem finishLoad_eq (g : Engine ω) (load : Nat) (answer : Except Failure Categories) :
    g.finishLoad load answer = (g.withLoad load answer, match answer with
      | .ok _ => .ok (!g.outdated load)
      | .error f => if f.isFetch && g.outdated load then .ok false else .error f) := by
  have hloading : (if load = g.loads then { g with loading := false } else g) =
      { g with loading := if load = g.loads then false else g.loading } := by
    split <;> rfl
  have houtdated (loading : Bool) : outdated { g with loading } load = g.outdated load := rfl
  unfold finishLoad
  dsimp only
  rw [hloading]
  cases answer with
  | ok categories =>
    dsimp only
    rw [houtdated]
    unfold withLoad loadedCatalog
    cases g.outdated load <;> rfl
  | error f =>
    dsimp only
    rw [houtdated]
    split <;> rfl

theorem turn_loaded (g : Engine ω) (load : Nat) (answer : Except Failure Categories) :
    g.turn acting (.loaded load answer) = g.withLoad load answer :=
  congrArg Prod.fst (g.finishLoad_eq load answer)

theorem loadedCatalog_of_closed (h : g.closed = true) (load : Nat)
    (answer : Except Failure Categories) : g.loadedCatalog load answer = g.catalog := by
  unfold loadedCatalog outdated
  cases answer <;> simp [h]

/-- Whether the answer of a load becomes the catalog. -/
def installs (g : Engine ω) (load : Nat) : Except Failure Categories → Bool
  | .ok _ => !g.outdated load
  | .error _ => false

/-- When the load after a save is answered, the batch is confirmed with or without a new catalog,
unless the engine is closed meanwhile or the load fails in a way that is not provided for. -/
theorem reloaded_cases (acting : Acting ω) {batch : Batch} {rows : List Setting} {load : Nat}
    (h : g.flight = .reloading batch rows load) (answer : Except Failure Categories) :
    (g.closed = true ∧ g.reloaded acting answer = (g.withLoad load answer).endRound acting) ∨
      (∃ f, answer = .error f ∧ f.isFetch = false ∧
        g.reloaded acting answer = (g.withLoad load answer).land (some f)) ∨
      (g.closed = false ∧ (∀ f, answer = .error f → f.isFetch = true) ∧
        g.reloaded acting answer =
          (g.withLoad load answer).confirm acting batch rows (g.installs load answer)) := by
  have hclosed : (g.withLoad load answer).closed = g.closed := rfl
  unfold reloaded
  rw [h]
  dsimp only
  rw [finishLoad_eq]
  cases answer with
  | ok categories =>
    cases hc : g.closed with
    | true => exact .inl ⟨rfl, by simp [hclosed, hc]⟩
    | false => exact .inr (.inr ⟨rfl, nofun, by simp [hclosed, hc, installs]⟩)
  | error f =>
    cases hfetch : f.isFetch with
    | false => exact .inr (.inl ⟨f, rfl, hfetch, by simp [hfetch]⟩)
    | true =>
      have hanswer : ∀ f', (.error f : Except Failure Categories) = .error f' →
          f'.isFetch = true := by
        rintro _ ⟨⟩
        exact hfetch
      -- an outdated load does not report its failure, and the others are passed over
      cases hc : g.closed with
      | true =>
        refine .inl ⟨rfl, ?_⟩
        cases g.outdated load <;> simp [hclosed, hc, hfetch]
      | false =>
        refine .inr (.inr ⟨rfl, hanswer, ?_⟩)
        cases g.outdated load <;> simp [hclosed, hc, hfetch, installs]

theorem reloaded_of_open {batch : Batch} {rows : List Setting} {load : Nat}
    (h : g.flight = .reloading batch rows load) (hopen : g.closed = false)
    {answer : Except Failure Categories} (hanswer : ∀ f, answer = .error f → f.isFetch = true) :
    g.reloaded acting answer =
      (g.withLoad load answer).confirm acting batch rows (g.installs load answer) := by
  rcases reloaded_cases acting h answer with
    ⟨hclosed, -⟩ | ⟨f, hf, hfetch, -⟩ | ⟨-, -, heq⟩
  · exact absurd (hclosed.symm.trans hopen) nofun
  · exact absurd ((hanswer f hf).symm.trans hfetch) nofun
  · exact heq

end DeferredSave.Engine
