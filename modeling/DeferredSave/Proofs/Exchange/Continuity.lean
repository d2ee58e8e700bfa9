import DeferredSave.Proofs.Course.Underway
import DeferredSave.Proofs.Exchange.Basic

/-!
# What is shown of an edited key

If nobody but the engine writes to the backend, and the backend stores values as they are, then the
value of an edit is shown until the key is edited again: first because the edit is in the buffer,
and later because the catalog has it by then. An edit leaves the buffer when its batch is confirmed
(`Faithful.saved`), and from then on whatever gets into the catalog has its value (`Saved.after`).

The catalog has the value, that is, if it has a row of the key. When the load that follows the save
comes to nothing, the rows of the save are put into the present catalog, and those of keys that it
does not have are lost; the edits are dropped all the same (`edited_value_is_shown_iff`).
-/

namespace DeferredSave

variable {ω : Type}

/-! ## Rows of an edited key -/

/-- There is a row of the key, and it has the value of the edit. -/
def Holdings.Bears (h : Holdings) (e : Edit) : Prop :=
  ∃ row, h e.key = some row ∧ row.value = e.value

/-- If there is a row of the key, it has the value of the edit. -/
def Holdings.Admits (h : Holdings) (e : Edit) : Prop :=
  ∀ row, h e.key = some row → row.value = e.value

theorem Holdings.Bears.admits {h : Holdings} {e : Edit} (hbears : h.Bears e) : h.Admits e := by
  obtain ⟨row, hrow, hvalue⟩ := hbears
  intro row' hrow'
  cases hrow.symm.trans hrow'
  exact hvalue

/-- Nobody else writes, and a batch is stored as it is: each of its entries is answered with the row
that is held from then on, and no other key is touched. -/
structure Holder.Verbatim (b : Holder) : Prop where
  sole : ∀ {h h'}, ¬ b.writes h h'
  entries : ∀ {batch h h' rows}, b.stores batch h h' rows →
    ∀ key value, (key, value) ∈ batch.entries → ∃ row ∈ rows, row.key = key ∧ row.value = value
  answers : ∀ {batch h h' rows}, b.stores batch h h' rows → ∀ row ∈ rows, h' row.key = some row
  others : ∀ {batch h h' rows}, b.stores batch h h' rows →
    ∀ key, key ∉ batch.keys → h' key = h key

section

variable {b : Holder} {batch : Batch} {h h' : Holdings} {rows : List Setting} {e : Edit}

theorem Batch.Holds.mem_entries (hholds : batch.Holds e) : (e.key, e.value) ∈ batch.entries :=
  (List.of_mem_zip hholds).1

/-- A batch that holds the edit is stored and answered with its value. -/
theorem Holder.Verbatim.bears (hb : b.Verbatim) (hstores : b.stores batch h h' rows)
    (hholds : batch.Holds e) : h'.Bears e ∧ Holdings.Bears (Catalog.lastOf? rows) e := by
  obtain ⟨row, hrow, hkey, hvalue⟩ := hb.entries hstores e.key e.value hholds.mem_entries
  have hheld : h' e.key = some row := hkey ▸ hb.answers hstores row hrow
  refine ⟨⟨row, hheld, hvalue⟩, ?_⟩
  -- if the answer has several rows of the key, the last one is held
  obtain ⟨last, hlast⟩ := Catalog.exists_lastOf? hrow
  rw [hkey] at hlast
  cases hheld.symm.trans (held_of_lastOf? (hb.answers hstores) hlast)
  exact ⟨row, hlast, hvalue⟩

/-- A key that is held stays so. -/
theorem Holder.Verbatim.keeps (hb : b.Verbatim) (hstores : b.stores batch h h' rows) {key : String}
    (hkey : (h key).isSome) : (h' key).isSome := by
  by_cases hmem : key ∈ batch.keys
  · obtain ⟨⟨_, value⟩, hentry, rfl⟩ := List.mem_map.1 hmem
    obtain ⟨row, hrow, hsame, -⟩ := hb.entries hstores _ value hentry
    have hheld := hb.answers hstores row hrow
    rw [hsame] at hheld
    exact Option.isSome_of_eq_some hheld
  · rwa [hb.others hstores key hmem]

/-- What is answered fits to what is held. -/
theorem Holder.Verbatim.admits (hb : b.Verbatim) (hstores : b.stores batch h h' rows)
    (hheld : h'.Admits e) : Holdings.Admits (Catalog.lastOf? rows) e :=
  fun row hlast => hheld row (held_of_lastOf? (hb.answers hstores) hlast)

end

/-- Rows that bear the edit can be put into any catalog, and others into one that does not
contradict it. -/
theorem Catalog.admits_withUpdates {c : Catalog} {rows : List Setting} {e : Edit}
    (hrows : Holdings.Admits (lastOf? rows) e)
    (hc : Holdings.Bears (lastOf? rows) e ∨ Holdings.Admits c.find? e) :
    Holdings.Admits (c.withUpdates rows).find? e := by
  intro row hrow
  obtain hlast | ⟨hnone, hold⟩ := of_find?_withUpdates hrow
  · exact hrows row hlast
  · obtain ⟨last, hlast, -⟩ | hc := hc
    · cases hnone.symm.trans hlast
    · exact hc row hold

namespace Exchange

variable {b : Holder} {acting : Engine.Acting ω} {admitted : Engine ω → Call ω → Prop}
  {x x' : Exchange ω} {e : Edit} {ev : Event ω}

/-! ## The batch that is stored -/

/-- Only a batch that is under way is stored. -/
def Tidy (x : Exchange ω) : Prop :=
  ∀ rows, x.stored = some rows → ∃ batch, x.engine.flight = .saving batch

/-- What is stored after an event was stored before, and its batch is still under way. -/
theorem Tidy.stored_after (hx : Tidy x) (hlisten : Listening admitted acting)
    (hready : x.course.Ready ev) {rows : List Setting}
    (hrows : (x.after acting ev).stored = some rows) :
    x.stored = some rows ∧ ∃ batch, x.engine.flight = .saving batch ∧
      (x.after acting ev).engine.flight = .saving batch := by
  change x.storedAfter ev = some rows at hrows
  have hupdated : ∀ answer, ev ≠ .turn (.updated answer) := by
    rintro answer rfl
    cases hrows
  have hkept : x.storedAfter ev = x.stored := by
    unfold storedAfter
    split
    · exact (hupdated _ rfl).elim
    · rfl
  rw [hkept] at hrows
  obtain ⟨batch, hsaving⟩ := hx rows hrows
  -- no flight takes off while another one is on its way
  have htakeOff : ev ≠ .turn .takeOff := by
    rintro rfl
    cases hsaving.symm.trans hready
  exact ⟨hrows, batch, hsaving, Engine.saving_stays hlisten hsaving htakeOff hupdated⟩

theorem Tidy.step {events : Course ω → Event ω → Prop} (hx : Tidy x)
    (hstep : Step b events (Listening admitted) x x') : Tidy x' := by
  cases hstep with
  | event hlisten hready _ _ =>
    intro rows hrows
    obtain ⟨-, batch, -, hafter⟩ := hx.stored_after hlisten hready hrows
    exact ⟨batch, hafter⟩
  | write | read => exact hx
  | store hsaving _ _ => exact fun _ _ => ⟨_, hsaving⟩

/-! ## From the buffer to the catalog -/

/-- What is held of the key, and what the newest load finds, is the value of the edit. -/
structure Secured (e : Edit) (x : Exchange ω) : Prop where
  held : x.held.Bears e
  newest : x.newest.Bears e

theorem Secured.of_newest (h : Secured e x) (hheld : x'.held = x.held)
    (hnewest : x'.newest = x.newest ∨ x'.newest = x.held) : Secured e x' := by
  refine ⟨hheld ▸ h.held, ?_⟩
  obtain heq | heq := hnewest
  · exact heq ▸ h.newest
  · exact heq ▸ h.held

/-- Each edit of a batch that is under way is held and answered with its value, as soon as the batch
is stored; and then the newest load finds it. -/
structure Faithful (x : Exchange ω) : Prop where
  saving : ∀ batch rows, x.engine.flight = .saving batch → x.stored = some rows →
    ∀ e, batch.Holds e → x.held.Bears e ∧ Holdings.Bears (Catalog.lastOf? rows) e
  reloading : ∀ batch rows load, x.engine.flight = .reloading batch rows load →
    ∀ e, batch.Holds e → Secured e x ∧ Holdings.Bears (Catalog.lastOf? rows) e

/-- The edit was saved and is gone from the buffer, and there is no other of its key. -/
structure Saved (e : Edit) (x : Exchange ω) : Prop where
  gone : x.engine.Only e.key fun _ => False
  batch : x.engine.Carries fun batch => e.key ∉ batch.keys
  secured : Secured e x
  catalog : Holdings.Admits x.engine.catalog.find? e
  stored : ∀ rows, x.stored = some rows → Holdings.Admits (Catalog.lastOf? rows) e
  rows : ∀ batch rows load, x.engine.flight = .reloading batch rows load →
    Holdings.Admits (Catalog.lastOf? rows) e

/-! ## Steps of the engine -/

theorem Faithful.after (hx : Faithful x) (hlisten : Listening admitted acting)
    (hready : x.course.Ready ev) (htidy : Tidy x) (hanswers : x.Answers ev) :
    Faithful (x.after acting ev) where
  saving := by
    intro batch rows hsaving hrows
    obtain ⟨hstored, batch', hbefore, hafter⟩ := htidy.stored_after hlisten hready hrows
    cases hsaving.symm.trans hafter
    exact hx.saving batch rows hbefore hstored
  reloading := by
    intro batch rows load hreloading e hholds
    obtain hbefore | ⟨hsaving, hstored, hnewest⟩ := reloading_after hlisten hanswers hreloading
    · obtain ⟨hsecured, hrows⟩ := hx.reloading batch rows load hbefore e hholds
      exact ⟨hsecured.of_newest rfl (newest_after hlisten x ev), hrows⟩
    · -- the load that follows the save starts when the batch is stored
      obtain ⟨hheld, hrows⟩ := hx.saving batch rows hsaving hstored e hholds
      exact ⟨⟨hheld, hnewest ▸ hheld⟩, hrows⟩

section

variable (hlisten : Listening (Engine.Retains e.key) acting) (hready : x.course.Ready ev)
  (htidy : Tidy x)
include hlisten hready htidy

/-- When an edit leaves the buffer, its batch is confirmed and the catalog takes over its value. -/
theorem Faithful.saved (hx : Faithful x) (hsound : x.course.Sound)
    (honly : x.engine.Only e.key (· = e)) (hretains : x.course.Retains e.key ev)
    (hanswers : x.Answers ev) (he : e ∈ x.engine.edits.edits)
    (hgone : e ∉ (x.after acting ev).engine.edits.edits) : Saved e (x.after acting ev) := by
  have hcall : ∀ call, ev = .call call → x.engine.Retains e.key call := by
    rintro call rfl
    exact hretains
  have hledger : Ledger x.course.sent x.engine := hsound.ledger
  obtain ⟨answer, batch, rows, load, rfl, hflight, hholds, hopen, hanswer⟩ :=
    Engine.confirms_of_leaves hledger hlisten hcall he hgone
  obtain ⟨hsecured, hrows⟩ := hx.reloading batch rows load hflight e hholds
  obtain ⟨honly, hcarries⟩ := honly.reloaded hledger hlisten hflight hholds hopen hanswer
  refine ⟨honly, hcarries, hsecured.of_newest rfl (newest_after hlisten x _), ?_, ?_, ?_⟩
  · change Holdings.Admits (x.engine.reloaded acting answer).catalog.find? e
    rw [Engine.reloaded_catalog hlisten hflight hopen hanswer]
    cases hinstalls : x.engine.installs load answer with
    | true =>
      -- the load that follows the save is the newest
      obtain ⟨categories, rfl, rfl, hloaded, -⟩ := Engine.exists_of_installs hinstalls
      rw [if_pos rfl, hloaded, Categories.Shows.find?_eq (hanswers _ _ _ hflight)]
      exact hsecured.newest.admits
    | false => exact Catalog.admits_withUpdates hrows.admits (.inl hrows)
  -- the flight has ended its round, so nothing of it is left to be stored or answered
  · intro rows' hrows'
    obtain ⟨-, _, hsaving, -⟩ := htidy.stored_after hlisten hready hrows'
    cases hsaving.symm.trans hflight
  · intro _ _ _ hreloading
    obtain hr | ⟨_, hr⟩ := Engine.reloaded_rounded acting hflight answer <;>
      cases hr.symm.trans hreloading

/-- Once an edit was saved, whatever gets into the catalog has its value. -/
theorem Saved.after (hx : Saved e x) (hretains : x.course.Retains e.key ev)
    (hanswers : x.Answers ev) : Saved e (x.after acting ev) where
  gone := by
    apply hx.gone.after hlisten
    rintro call rfl
    exact hretains
  batch := by
    have hsteady := Engine.steady_only hlisten fun _ => False
    change (x.engine.after acting ev).Carries _
    cases ev with
    | call call => exact hx.batch.call hlisten call
    | wait seconds => exact hx.batch
    | turn t =>
      exact hsteady.carries_turn (fun _ => Engine.Only.not_mem_snapshot) hlisten hx.gone hx.batch
        hx.gone.discardFlushed t
  secured := hx.secured.of_newest rfl (newest_after hlisten x ev)
  catalog := by
    cases shown_after hlisten hanswers with
    | stays hstays => exact hstays ▸ hx.catalog
    | found hfound => exact hfound ▸ hx.secured.newest.admits
    | patched hflight _ _ _ _ hpatched =>
      rw [hpatched]
      exact Catalog.admits_withUpdates (hx.rows _ _ _ hflight) (.inr hx.catalog)
  stored := by
    intro rows hrows
    exact hx.stored rows (htidy.stored_after hlisten hready hrows).1
  rows := by
    intro batch rows load hreloading
    obtain hbefore | ⟨-, hstored, -⟩ := reloading_after hlisten hanswers hreloading
    · exact hx.rows batch rows load hbefore
    · exact hx.stored rows hstored

end

/-! ## Steps of the backend -/

theorem faithful_store (hb : b.Verbatim) {batch : Batch} {held : Holdings}
    {rows : List Setting} (hsaving : x.engine.flight = .saving batch)
    (hstores : b.stores batch x.held held rows) :
    Faithful { x with held, stored := some rows } where
  saving := by
    rintro batch' _ hsaving' ⟨⟩ e hholds
    cases hsaving.symm.trans hsaving'
    exact hb.bears hstores hholds
  reloading := by
    intro batch' rows' load hreloading
    cases hsaving.symm.trans hreloading

theorem Saved.store (hx : Saved e x) (hb : b.Verbatim) {batch : Batch} {held : Holdings}
    {rows : List Setting} (hsaving : x.engine.flight = .saving batch)
    (hstores : b.stores batch x.held held rows) :
    Saved e { x with held, stored := some rows } := by
  have hkey : e.key ∉ batch.keys := hx.batch batch (by rw [hsaving]; rfl)
  have hheld : held.Bears e := by
    unfold Holdings.Bears
    rw [hb.others hstores e.key hkey]
    exact hx.secured.held
  refine ⟨hx.gone, hx.batch, ⟨hheld, hx.secured.newest⟩, hx.catalog, ?_, hx.rows⟩
  rintro _ ⟨⟩
  exact hb.admits hstores hheld.admits

theorem Secured.look (h : Secured e x) (load : Nat) :
    Secured e { x with read := Function.update x.read load x.held } :=
  h.of_newest rfl (x.newest_look load)

/-! ## In the course of steps -/

/-- What an exchange keeps to by itself, whatever happens to the edits. -/
structure Regular (x : Exchange ω) : Prop where
  sound : x.course.Sound
  tidy : Tidy x
  faithful : Faithful x

theorem Regular.step {events : Course ω → Event ω → Prop} (hx : Regular x) (hb : b.Verbatim)
    (hstep : Step b events (Listening admitted) x x') : Regular x' where
  sound := (Leads.course (.single hstep)).sound (fun _ => id) hx.sound
  tidy := hx.tidy.step hstep
  faithful := by
    cases hstep with
    | event hlisten hready _ hanswers => exact hx.faithful.after hlisten hready hx.tidy hanswers
    | write hwrites => exact (hb.sole hwrites).elim
    | store hsaving _ hstores => exact faithful_store hb hsaving hstores
    | read load =>
      refine ⟨hx.faithful.saving, ?_⟩
      intro batch rows load' hreloading e hholds
      obtain ⟨hsecured, hrows⟩ := hx.faithful.reloading batch rows load' hreloading e hholds
      exact ⟨hsecured.look load, hrows⟩

theorem Leads.regular {events : Course ω → Event ω → Prop}
    (h : Leads b events (Listening admitted) x x') (hb : b.Verbatim) (hx : Regular x) :
    Regular x' := by
  induction h with
  | refl => exact hx
  | tail _ hstep ih => exact ih.step hb hstep

theorem regular_start (metas : MetaTable) (rules : List CrossRule) (quietPeriod shownFor : Rat)
    (catalog : Catalog) (held : Holdings) :
    Regular (start metas rules quietPeriod shownFor catalog held : Exchange ω) where
  sound := sound_start metas rules quietPeriod shownFor catalog held
  tidy := fun _ => nofun
  faithful := ⟨fun _ _ => nofun, fun _ _ _ => nofun⟩

/-- The value of an edit is in the buffer, or has gone over to the catalog. -/
structure Continues (e : Edit) (x : Exchange ω) : Prop where
  regular : Regular x
  only : x.engine.Only e.key (· = e)
  value : e ∈ x.engine.edits.edits ∨ Saved e x

theorem Continues.step (hx : Continues e x) (hb : b.Verbatim)
    (hstep : Step b (Course.Retains e.key) (Listening (Engine.Retains e.key)) x x') :
    Continues e x' := by
  obtain ⟨hregular, honly, hvalue⟩ := hx
  have hregular' := hregular.step hb hstep
  cases hstep with
  | @event acting ev hlisten hready hretains hanswers =>
    have hcall : ∀ call, ev = .call call → x.engine.Retains e.key call := by
      rintro call rfl
      exact hretains
    refine ⟨hregular', honly.after hlisten hcall, ?_⟩
    by_cases hmem : e ∈ (x.after acting ev).engine.edits.edits
    · exact .inl hmem
    · -- it leaves the buffer now, or it has left before
      right
      obtain he | hsaved := hvalue
      · exact hregular.faithful.saved hlisten hready hregular.tidy hregular.sound honly hretains
          hanswers he hmem
      · exact hsaved.after hlisten hready hregular.tidy hretains hanswers
  | write hwrites => exact (hb.sole hwrites).elim
  | store hsaving _ hstores =>
    exact ⟨hregular', honly, hvalue.imp_right fun hsaved => hsaved.store hb hsaving hstores⟩
  | read load =>
    refine ⟨hregular', honly, hvalue.imp_right fun hsaved => ?_⟩
    exact ⟨hsaved.gone, hsaved.batch, hsaved.secured.look load, hsaved.catalog, hsaved.stored,
      hsaved.rows⟩

theorem Leads.retained
    (h : Leads b (Course.Retains e.key) (Listening (Engine.Retains e.key)) x x') (hb : b.Verbatim)
    (hx : Continues e x) : Continues e x' := by
  induction h with
  | refl => exact hx
  | tail _ hstep ih => exact ih.step hb hstep

theorem Leads.continues
    (h : Leads b (Course.Spares e.key) (Listening (Engine.Spares e.key)) x x') (hb : b.Verbatim)
    (hx : Continues e x) : Continues e x' :=
  Leads.retained (h.mono (fun _ _ hspares => hspares.retains) fun _ hlisten => hlisten.retains)
    hb hx

/-! ## Keys that the backend knows -/

/-- The backend knows the key, and each load finds it. -/
structure Known (key : String) (x : Exchange ω) : Prop where
  held : (x.held key).isSome
  read : ∀ load, (x.read load key).isSome

theorem Known.step {events : Course ω → Event ω → Prop} {key : String} (hx : Known key x)
    (hb : b.Verbatim) (hstep : Step b events (Listening admitted) x x') : Known key x' := by
  cases hstep with
  | event => exact ⟨hx.held, read_after (P := fun h => (h key).isSome) hx.held hx.read _⟩
  | write hwrites => exact (hb.sole hwrites).elim
  | store _ _ hstores => exact ⟨hb.keeps hstores hx.held, hx.read⟩
  | read load => exact ⟨hx.held, read_look (P := fun h => (h key).isSome) hx.held hx.read load⟩

theorem Leads.known {events : Course ω → Event ω → Prop} {key : String}
    (h : Leads b events (Listening admitted) x x') (hb : b.Verbatim) (hx : Known key x) :
    Known key x' := by
  induction h with
  | refl => exact hx
  | tail _ hstep ih => exact ih.step hb hstep

/-- The catalog does not lose a key that the backend knows. -/
theorem Leads.listed {events : Course ω → Event ω → Prop} {key : String}
    (h : Leads b events (Listening admitted) x x') (hb : b.Verbatim) (hx : Known key x)
    (hlisted : (x.engine.catalog.find? key).isSome) : (x'.engine.catalog.find? key).isSome := by
  induction h with
  | refl => exact hlisted
  | @tail x₁ x₂ hsteps hstep ih =>
    have hknown : Known key x₁ := Leads.known hsteps hb hx
    cases hstep with
    | write | store | read => exact ih
    | event hlisten _ _ hanswers =>
      cases shown_after hlisten hanswers with
      | stays hstays => exact hstays ▸ ih
      | found hfound => exact hfound ▸ hknown.read _
      | patched _ _ _ _ _ hpatched =>
        rw [hpatched, Catalog.find?_withUpdates, Option.isSome_map]
        exact ih

/-! ## What is shown -/

theorem Continues.effective_eq (h : Continues e x) :
    x.engine.effective e.key = e.value ↔
      e ∈ x.engine.edits.edits ∨ (x.engine.catalog.find? e.key).isSome ∨ e.value = "" := by
  unfold Engine.effective effectiveValue EditBuffer.get? Catalog.value?
  by_cases he : e ∈ x.engine.edits.edits
  · have hfound : x.engine.edits.find? e.key = some e :=
      EditBuffer.find?_of_mem h.regular.sound.ledger.orderly.nodup he
    simp [he, hfound]
  · have hsaved : Saved e x := h.value.resolve_left he
    have hnone : x.engine.edits.find? e.key = none :=
      List.find?_eq_none.2 fun e' he' => by simpa using hsaved.gone e' he'
    cases hfind : x.engine.catalog.find? e.key with
    | none => simp [he, hnone]
    | some row => simp [hnone, hsaved.catalog row hfind]

/-- If nobody else writes and values are stored as they are, then until a key is edited again the
value of its edit is shown, unless the edit has left the buffer and the catalog has no row of the
key. In particular it is shown if the backend knows the key and the catalog had a row of it when
the edit was made. -/
theorem edited_value_is_shown_iff {metas : MetaTable} {rules : List CrossRule}
    {quietPeriod shownFor : Rat} {catalog : Catalog} {held : Holdings} {x₀ : Exchange ω}
    (hb : b.Verbatim)
    (hx₀ : Leads b (fun _ _ => True) (Listening fun _ _ => True)
      (start metas rules quietPeriod shownFor catalog held) x₀)
    (he : e ∈ x₀.engine.edits.edits)
    (hx : Leads b (Course.Spares e.key) (Listening (Engine.Spares e.key)) x₀ x) :
    (x.engine.effective e.key = e.value ↔
        e ∈ x.engine.edits.edits ∨ (x.engine.catalog.find? e.key).isSome ∨ e.value = "") ∧
      ((held e.key).isSome → (x₀.engine.catalog.find? e.key).isSome →
        x.engine.effective e.key = e.value) := by
  have hregular : Regular x₀ := hx₀.regular hb (regular_start _ _ _ _ _ _)
  have honly : x₀.engine.Only e.key (· = e) := by
    -- there is one edit of each key
    intro e' he' hkey
    have hnodup := hregular.sound.ledger.orderly.nodup
    have hfound := EditBuffer.find?_of_mem hnodup he'
    rw [hkey, EditBuffer.find?_of_mem hnodup he] at hfound
    exact (Option.some.inj hfound).symm
  have hiff := (hx.continues hb ⟨hregular, honly, .inl he⟩).effective_eq
  refine ⟨hiff, ?_⟩
  intro hheld hlisted
  have hknown : Known e.key x₀ := hx₀.known hb ⟨hheld, fun _ => hheld⟩
  exact hiff.2 (.inr (.inl (hx.listed hb hknown hlisted)))

/-! ## A save without a new catalog -/

/-- A backend that may do whatever an engine of its own can expect. -/
def verbatimHolder : Holder where
  writes := fun _ _ => False
  stores := fun batch h h' rows =>
    (∀ key value, (key, value) ∈ batch.entries → ∃ row ∈ rows, row.key = key ∧ row.value = value) ∧
    (∀ row ∈ rows, h' row.key = some row) ∧ ∀ key, key ∉ batch.keys → h' key = h key

theorem verbatimHolder_verbatim : verbatimHolder.Verbatim :=
  ⟨id, And.left, fun h => h.2.1, fun h => h.2.2⟩

/-- No edits are dropped from outside. -/
def KeepsEdits : Event Unit → Prop
  | .call (.discard _) => False
  | _ => True

/-- A refresh fails, and then a key is edited. -/
def edited (catalog : Catalog) : Exchange Unit :=
  (start [] [] 1 1 catalog (holding (rowAt "old" 0))).run .silent
    [.event (.call .refresh), .event (.turn (.loaded 1 (.error (.plain .fetch none)))),
      .event (.call (.change "key" "saved"))]

/-- The edit is saved, but the load that follows the save fails. -/
def saved (catalog : Catalog) : Exchange Unit :=
  (edited catalog).run .silent
    [.event (.call .flushNow), .event (.turn .takeOff),
      .store (holding (rowAt "saved" 1)) [rowAt "saved" 1],
      .event (.turn (.updated (.ok [rowAt "saved" 1]))),
      .event (.turn (.reloaded (.error (.plain .fetch none))))]

theorem leads_edited (catalog : Catalog) :
    Leads verbatimHolder (fun _ => KeepsEdits) Aloof
      (start [] [] 1 1 catalog (holding (rowAt "old" 0))) (edited catalog) := by
  apply Runs.leads _ aloof_silent
  exact ⟨⟨trivial, trivial, trivial⟩, ⟨List.mem_singleton.2 rfl, trivial, trivial⟩,
    ⟨trivial, trivial, trivial⟩, trivial⟩

theorem stores_saved :
    verbatimHolder.stores ⟨[("key", "saved")], [1]⟩ (holding (rowAt "old" 0))
      (holding (rowAt "saved" 1)) [rowAt "saved" 1] := by
  refine ⟨?_, holding_of_mem, ?_⟩
  · intro key value hentry
    cases List.mem_singleton.1 hentry
    exact ⟨_, List.mem_singleton.2 rfl, rfl, rfl⟩
  · intro key hother
    have hne : "key" ≠ key := fun heq => hother (List.mem_singleton.2 heq.symm)
    simp [holding, rowAt, hne]

theorem leads_saved (catalog : Catalog) :
    Leads verbatimHolder (fun c ev => c.Spares "key" ev ∧ KeepsEdits ev) Aloof (edited catalog)
      (saved catalog) := by
  apply Runs.leads _ aloof_silent
  exact ⟨⟨trivial, ⟨trivial, trivial⟩, trivial⟩, ⟨rfl, ⟨trivial, trivial⟩, trivial⟩,
    ⟨⟨[("key", "saved")], [1]⟩, rfl, rfl, stores_saved⟩, ⟨⟨_, rfl⟩, ⟨trivial, trivial⟩, rfl⟩,
    ⟨⟨_, _, _, rfl⟩, ⟨trivial, trivial⟩, trivial⟩, trivial⟩

/-- A catalog with a row of the key takes over the value from the rows of the save. -/
theorem saved_value_is_shown :
    (saved ⟨showing (rowAt "old" 0)⟩).engine.edits.edits = [] ∧
      (saved ⟨showing (rowAt "old" 0)⟩).engine.effective "key" = "saved" := by
  have hedited : Leads verbatimHolder (fun _ _ => True) (Listening fun _ _ => True) _
      (edited ⟨showing (rowAt "old" 0)⟩) :=
    (leads_edited _).mono (fun _ _ _ => trivial) fun _ => Listening.aloof
  have hsaved : Leads verbatimHolder (Course.Spares "key") (Listening (Engine.Spares "key")) _
      (saved ⟨showing (rowAt "old" 0)⟩) :=
    (leads_saved _).mono (fun _ _ => And.left) fun _ => Listening.aloof
  have hedit : ⟨"key", "saved", 1⟩ ∈ (edited ⟨showing (rowAt "old" 0)⟩).engine.edits.edits :=
    List.mem_singleton.2 rfl
  have hshown := edited_value_is_shown_iff verbatimHolder_verbatim hedited hedit hsaved
  exact ⟨rfl, hshown.2 rfl rfl⟩

/-- Without a catalog the value is shown neither from the buffer nor from the catalog. -/
theorem saved_value_is_lost :
    ∃ (b : Holder) (x₀ x : Exchange Unit),
      b.Verbatim ∧ (holding (rowAt "old" 0) "key").isSome ∧
      Leads b (fun _ => KeepsEdits) Aloof
        (start [] [] 1 1 .empty (holding (rowAt "old" 0))) x₀ ∧
      ⟨"key", "saved", 1⟩ ∈ x₀.engine.edits.edits ∧
      Leads b (fun c ev => c.Spares "key" ev ∧ KeepsEdits ev) Aloof x₀ x ∧
      x₀.engine.effective "key" = "saved" ∧ x.engine.effective "key" = "" :=
  ⟨verbatimHolder, edited .empty, saved .empty, verbatimHolder_verbatim, rfl, leads_edited .empty,
    List.mem_singleton.2 rfl, leads_saved .empty, rfl, rfl⟩

end Exchange

end DeferredSave
