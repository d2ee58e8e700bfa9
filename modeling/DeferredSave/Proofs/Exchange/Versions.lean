import DeferredSave.Proofs.Exchange.Basic
import Mathlib.Data.Nat.Basic

/-!
# When the catalog goes back in time

In the backend each key has a version that grows with every write, whoever writes. What the catalog
shows is never newer than what the newest load will find, so a new catalog never shows an older row
than the one before. The rows that a save returned are another matter: they were new when the batch
was stored, and are put into the catalog whatever it shows by then. So the catalog goes back in time
when another client has written a key meanwhile, a load that was asked for later has shown that
already, and the load that follows the save comes to nothing (`Exchange.goes_back_iff`).
-/

namespace DeferredSave

variable {ω V : Type} [Preorder V] {version : Setting → V} {h h' h'' : Holdings}

/-! ## Versions -/

/-- Each row of `h` is in `h'`, or a newer one of its key. -/
def Holdings.Trails (version : Setting → V) (h h' : Holdings) : Prop :=
  ∀ key row, h key = some row → ∃ row', h' key = some row' ∧ version row ≤ version row'

/-- The row of a key has got lost, or is an older one now. -/
def Holdings.GoesBack (version : Setting → V) (h h' : Holdings) (key : String) : Prop :=
  ∃ old, h key = some old ∧ ∀ new, h' key = some new → version new < version old

/-- Each key has its row as before, or a newer one. -/
def Holdings.Renews (version : Setting → V) (h h' : Holdings) : Prop :=
  ∀ key, h' key = h key ∨
    ∃ new, h' key = some new ∧ ∀ old, h key = some old → version old < version new

namespace Holdings

theorem Trails.refl (h : Holdings) : Trails version h h :=
  fun _ row hrow => ⟨row, hrow, le_rfl⟩

theorem Trails.trans (h₁ : Trails version h h') (h₂ : Trails version h' h'') :
    Trails version h h'' := by
  intro key row hrow
  obtain ⟨row', hrow', hle⟩ := h₁ key row hrow
  obtain ⟨row'', hrow'', hle'⟩ := h₂ key row' hrow'
  exact ⟨row'', hrow'', le_trans hle hle'⟩

theorem Renews.trails (h₁ : Renews version h h') : Trails version h h' := by
  intro key old hold
  obtain hsame | ⟨new, hnew, hlt⟩ := h₁ key
  · exact ⟨old, hsame.trans hold, le_rfl⟩
  · exact ⟨new, hnew, le_of_lt (hlt old hold)⟩

theorem Trails.not_goesBack (h₁ : Trails version h h') (key : String) :
    ¬ GoesBack version h h' key := by
  rintro ⟨old, hold, hback⟩
  obtain ⟨new, hnew, hle⟩ := h₁ key old hold
  exact not_lt_of_ge hle (hback new hnew)

end Holdings

/-- Every write gives a key a newer version, and an answer tells what is held by then. -/
structure Holder.Versioned (b : Holder) (version : Setting → V) : Prop where
  writes : ∀ {h h'}, b.writes h h' → Holdings.Renews version h h'
  stores : ∀ {batch h h' rows}, b.stores batch h h' rows → Holdings.Renews version h h'
  answers : ∀ {batch h h' rows}, b.stores batch h h' rows → ∀ row ∈ rows, h' row.key = some row

/-! ## What trails what -/

namespace Exchange

open Holdings

variable {b : Holder} {events : Course ω → Event ω → Prop} {acting : Engine.Acting ω}
  {admitted : Engine ω → Call ω → Prop} {x x' : Exchange ω}

/-- Neither the catalog nor the rows of a save are newer than what the newest load finds, and no
load finds anything newer than what is held. -/
structure Timely (version : Setting → V) (x : Exchange ω) : Prop where
  catalog : Trails version x.engine.catalog.find? x.newest
  rows : ∀ batch rows load, x.engine.flight = .reloading batch rows load →
    Trails version (Catalog.lastOf? rows) x.newest
  read : ∀ load, Trails version (x.read load) x.held
  stored : ∀ rows, x.stored = some rows → Trails version (Catalog.lastOf? rows) x.held

theorem Timely.change (hx : Timely version x) {held : Holdings}
    (hrenews : Renews version x.held held) : Timely version { x with held } where
  catalog := hx.catalog
  rows := hx.rows
  read := fun load => (hx.read load).trans hrenews.trails
  stored := fun rows hrows => (hx.stored rows hrows).trans hrenews.trails

theorem Timely.store (hx : Timely version x) {held : Holdings} {rows : List Setting}
    (hrenews : Renews version x.held held) (hrows : ∀ row ∈ rows, held row.key = some row) :
    Timely version { x with held, stored := some rows } where
  catalog := hx.catalog
  rows := hx.rows
  read := (hx.change hrenews).read
  stored := by
    rintro _ ⟨⟩ key row hrow
    exact ⟨row, held_of_lastOf? hrows hrow, le_rfl⟩

/-- What trails the newest load still does when another one is the newest, as nothing is newer than
what is held. -/
theorem Timely.newest_trails (hx : Timely version x) {h : Holdings}
    (htrails : Trails version h x.newest) (hnewest : x'.newest = x.newest ∨ x'.newest = x.held) :
    Trails version h x'.newest := by
  obtain heq | heq := hnewest
  · exact heq ▸ htrails
  · exact heq ▸ htrails.trans (hx.read _)

theorem Timely.look (hx : Timely version x) (load : Nat) :
    Timely version { x with read := Function.update x.read load x.held } where
  catalog := hx.newest_trails hx.catalog (x.newest_look load)
  rows := fun batch rows load' hflight =>
    hx.newest_trails (hx.rows batch rows load' hflight) (x.newest_look load)
  read := read_look (P := (Trails version · x.held)) (.refl _) hx.read load
  stored := hx.stored

/-- Patching a catalog gives a key the row of the save, or leaves it its row. -/
theorem trails_withUpdates {catalog : Catalog} {rows : List Setting} {h : Holdings}
    (hcatalog : Trails version catalog.find? h) (hrows : Trails version (Catalog.lastOf? rows) h) :
    Trails version (catalog.withUpdates rows).find? h := by
  intro key row hrow
  obtain hlast | ⟨-, hold⟩ := Catalog.of_find?_withUpdates hrow
  · exact hrows key row hlast
  · exact hcatalog key row hold

theorem Timely.after (hx : Timely version x) (hlisten : Listening admitted acting) {ev : Event ω}
    (hanswers : x.Answers ev) : Timely version (x.after acting ev) where
  catalog := by
    refine hx.newest_trails ?_ (newest_after hlisten x ev)
    cases shown_after hlisten hanswers with
    | stays hstays => exact hstays ▸ hx.catalog
    | found hfound => exact hfound ▸ .refl _
    | patched hflight _ _ _ _ hpatched =>
      rw [hpatched]
      exact trails_withUpdates hx.catalog (hx.rows _ _ _ hflight)
  rows := by
    intro batch rows load hreloading
    obtain hbefore | ⟨-, hstored, hnewest⟩ := reloading_after hlisten hanswers hreloading
    · exact hx.newest_trails (hx.rows batch rows load hbefore) (newest_after hlisten x ev)
    · -- what was stored may have been overwritten since, but is not newer than what is held
      exact hnewest ▸ hx.stored rows hstored
  read := read_after (P := (Trails version · x.held)) (.refl _) hx.read ev
  stored := by
    intro rows hrows
    change x.storedAfter ev = some rows at hrows
    unfold storedAfter at hrows
    split at hrows
    · cases hrows
    · exact hx.stored rows hrows

theorem Timely.step (hx : Timely version x) (hb : b.Versioned version)
    (hstep : Step b events (Listening admitted) x x') : Timely version x' := by
  cases hstep with
  | event hlisten _ _ hanswers => exact hx.after hlisten hanswers
  | write hwrites => exact hx.change (hb.writes hwrites)
  | store _ _ hstores => exact hx.store (hb.stores hstores) (hb.answers hstores)
  | read load => exact hx.look load

theorem Leads.timely (h : Leads b events (Listening admitted) x x') (hb : b.Versioned version)
    (hx : Timely version x) : Timely version x' := by
  induction h with
  | refl => exact hx
  | tail _ hstep ih => exact ih.step hb hstep

theorem timely_start (metas : MetaTable) (rules : List CrossRule) (quietPeriod shownFor : Rat)
    {catalog : Catalog} {held : Holdings} (h : Trails version catalog.find? held) :
    Timely version (start metas rules quietPeriod shownFor catalog held : Exchange ω) where
  catalog := h
  rows := fun _ _ _ => nofun
  read := fun _ => .refl _
  stored := fun _ => nofun

/-! ## The catalog in the course of steps -/

/-- If every write gives a key a newer version, the catalog never loses a row, and it shows an older
one in one case only: the load that follows a save installs no catalog, and the row that the save
returned for the key is older than the one that is shown. By then a write later than the save has
changed that key. -/
theorem goes_back_iff {metas : MetaTable} {rules : List CrossRule} {quietPeriod shownFor : Rat}
    {catalog : Catalog} {held : Holdings} (hb : b.Versioned version)
    (hcatalog : Trails version catalog.find? held)
    (hx : Leads b (fun _ _ => True) (Listening fun _ _ => True)
      (start metas rules quietPeriod shownFor catalog held : Exchange ω) x)
    (hstep : Step b (fun _ _ => True) (Listening fun _ _ => True) x x') (key : String) :
    GoesBack version x.engine.catalog.find? x'.engine.catalog.find? key ↔
      ∃ (acting : Engine.Acting ω) (answer : Except Failure Categories) (batch : Batch)
        (rows : List Setting) (load : Nat) (row old now : Setting),
        x' = x.after acting (.turn (.reloaded answer)) ∧ Listening (fun _ _ => True) acting ∧
        x.engine.flight = .reloading batch rows load ∧ x.engine.closed = false ∧
        (∀ f, answer = .error f → f.isFetch = true) ∧ x.engine.installs load answer = false ∧
        Catalog.lastOf? rows key = some row ∧ x.engine.catalog.find? key = some old ∧
        x.held key = some now ∧ version row < version old ∧ version old ≤ version now := by
  have htimely : Timely version x := hx.timely hb (timely_start _ _ _ _ hcatalog)
  constructor
  · intro hback
    cases hstep with
    | write | store | read => exact (Trails.not_goesBack (.refl _) key hback).elim
    | @event acting ev hlisten _ _ hanswers =>
      cases shown_after hlisten hanswers with
      | stays hstays =>
        rw [hstays] at hback
        exact (Trails.not_goesBack (.refl _) key hback).elim
      | found hfound =>
        -- the newest load finds nothing older than what is shown
        rw [hfound] at hback
        exact (htimely.catalog.not_goesBack key hback).elim
      | @patched batch rows load answer hflight hev hopen hanswer hinstalls hpatched =>
        subst hev
        obtain ⟨old, hold, hback⟩ := hback
        rw [hpatched, Catalog.find?_withUpdates, hold, Option.map_some] at hback
        have hlt := hback _ rfl
        cases hlast : Catalog.lastOf? rows key with
        | none =>
          -- the key would have kept its row
          rw [hlast] at hlt
          exact (lt_irrefl _ hlt).elim
        | some row =>
          rw [hlast] at hlt
          obtain ⟨now, hnow, hle⟩ := htimely.catalog.trans (htimely.read _) key old hold
          exact ⟨acting, answer, batch, rows, load, row, old, now, rfl, hlisten, hflight, hopen,
            hanswer, hinstalls, hlast, hold, hnow, hlt, hle⟩
  · rintro ⟨acting, answer, batch, rows, load, row, old, now, rfl, hlisten, hflight, hopen, hanswer,
      hinstalls, hlast, hold, -, hlt, -⟩
    refine ⟨old, hold, ?_⟩
    intro new hnew
    change (x.engine.reloaded acting answer).catalog.find? key = some new at hnew
    rw [Engine.reloaded_catalog hlisten hflight hopen hanswer, hinstalls] at hnew
    simp only [Bool.false_eq_true, if_false, Catalog.find?_withUpdates, hold, hlast,
      Option.map_some, Option.getD_some, Option.some.injEq] at hnew
    exact hnew ▸ hlt

/-! ## A save that is overtaken -/

theorem renews_holding {old new : Setting} (hkey : old.key = new.key)
    (hlt : version old < version new) : Renews version (holding old) (holding new) := by
  intro key
  unfold holding
  rw [hkey]
  split
  · refine .inr ⟨new, rfl, ?_⟩
    rintro _ ⟨⟩
    exact hlt
  · exact .inl rfl

/-- A backend that may do whatever the versions allow. -/
def versionedHolder (version : Setting → V) : Holder where
  writes := Renews version
  stores := fun _ h h' rows => Renews version h h' ∧ ∀ row ∈ rows, h' row.key = some row

theorem versionedHolder_versioned (version : Setting → V) :
    (versionedHolder version).Versioned version :=
  ⟨id, And.left, And.right⟩

/-- An edit is saved, and before the load that follows the save is answered, another client writes
the key and a refresh shows that. -/
def overtaken : List (Move Unit) :=
  [.event (.call (.change "key" "saved")), .event (.call .flushNow), .event (.turn .takeOff),
    .store (holding (rowAt "saved" 1)) [rowAt "saved" 1],
    .event (.turn (.updated (.ok [rowAt "saved" 1]))), .event (.call .refresh),
    .write (holding (rowAt "newer" 2)), .read 2,
    .event (.turn (.loaded 2 (.ok (showing (rowAt "newer" 2)))))]

theorem runs_overtaken :
    (start [] [] 1 1 ⟨showing (rowAt "old" 0)⟩ (holding (rowAt "old" 0))).Runs
      (versionedHolder fun row => row.updatedAt.second) (fun _ _ => True) .silent overtaken := by
  have hstored : Renews (fun row => row.updatedAt.second) (holding (rowAt "old" 0))
      (holding (rowAt "saved" 1)) :=
    renews_holding rfl (by decide)
  have hwritten : Renews (fun row => row.updatedAt.second) (holding (rowAt "saved" 1))
      (holding (rowAt "newer" 2)) :=
    renews_holding rfl (by decide)
  exact ⟨⟨trivial, trivial, trivial⟩, ⟨trivial, trivial, trivial⟩, ⟨rfl, trivial, trivial⟩,
    ⟨_, rfl, rfl, hstored, holding_of_mem⟩, ⟨⟨_, rfl⟩, trivial, rfl⟩, ⟨trivial, trivial, trivial⟩,
    hwritten, trivial, ⟨List.mem_singleton.2 rfl, trivial, showing_shows _⟩, trivial⟩

/-- The exchange in which a newer row than that of the save is shown, and the load that follows the
save is still to be answered. -/
def beforeReload : Exchange Unit :=
  (start [] [] 1 1 ⟨showing (rowAt "old" 0)⟩ (holding (rowAt "old" 0))).run .silent overtaken

/-- The load that follows the save is answered last. -/
def afterReload : Exchange Unit :=
  beforeReload.after .silent (.turn (.reloaded (.ok (showing (rowAt "saved" 1)))))

theorem step_afterReload :
    Step (versionedHolder fun row => row.updatedAt.second) (fun _ _ => True) Aloof beforeReload
      afterReload := by
  have hanswers : beforeReload.Answers (.turn (.reloaded (.ok (showing (rowAt "saved" 1))))) := by
    rintro _ _ _ ⟨⟩
    exact showing_shows _
  exact .event aloof_silent ⟨_, _, _, rfl⟩ trivial hanswers

/-- A load that is not the newest any more brings no catalog, so the row of the save takes the place
of the newer one. -/
theorem overtaken_save_goes_back :
    GoesBack (fun row => row.updatedAt.second) beforeReload.engine.catalog.find?
      afterReload.engine.catalog.find? "key" := by
  have hlisten : Listening (fun _ _ => True) (Engine.silent : Engine.Acting Unit) :=
    aloof_silent.listening
  have hstep := step_afterReload.mono (fun _ _ => id) fun _ h => h.listening
  have hcatalog : Trails (fun row => row.updatedAt.second)
      (Catalog.mk (showing (rowAt "old" 0))).find? (holding (rowAt "old" 0)) := by
    rw [(showing_shows _).find?_eq]
    exact .refl _
  apply (goes_back_iff (versionedHolder_versioned _) hcatalog (runs_overtaken.leads hlisten)
    hstep "key").2
  exact ⟨.silent, _, _, _, _, rowAt "saved" 1, rowAt "newer" 2, rowAt "newer" 2, rfl, hlisten, rfl,
    rfl, nofun, rfl, rfl, rfl, rfl, by decide, by decide⟩

/-- The catalog shows the row of a save in the place of a newer one. -/
theorem older_row_is_shown :
    ∃ (b : Holder) (x x' : Exchange Unit) (newer older : Setting),
      b.Versioned (fun row => row.updatedAt.second) ∧
      Leads b (fun _ _ => True) Aloof
        (start [] [] 1 1 ⟨showing (rowAt "old" 0)⟩ (holding (rowAt "old" 0))) x ∧
      Step b (fun _ _ => True) Aloof x x' ∧
      x.engine.catalog.find? "key" = some newer ∧ x'.engine.catalog.find? "key" = some older ∧
      older.updatedAt.second < newer.updatedAt.second :=
  ⟨_, beforeReload, afterReload, rowAt "newer" 2, rowAt "saved" 1, versionedHolder_versioned _,
    runs_overtaken.leads aloof_silent, step_afterReload, rfl, rfl, by decide⟩

end Exchange

end DeferredSave
