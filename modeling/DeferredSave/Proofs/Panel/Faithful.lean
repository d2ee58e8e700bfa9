import DeferredSave.Proofs.Course.Edited
import DeferredSave.Proofs.Course.Ledger
import DeferredSave.Proofs.Entries
import DeferredSave.Proofs.Panel.View

/-!
# What the panel shows

The view of an engine has just the rows of its catalog. Each row shows the edit of its key or the
value in the first row of that key, and all else in it is about the value that is shown: whether it
differs from that first row, the first rule that applies or else the threshold that it crosses, and
the duration in words (`Panel.ShowsSetting`). The keys of the edits stand in the order in which they
were edited last (`Panel.view_shows_state`).
-/

namespace DeferredSave

variable {ω : Type} {acting : Engine.Acting ω} {g : Engine ω}

/-! ## The first rule that applies -/

/-- The rule warns of the value of a key. -/
def FreeRule.warnsOf (values : String → String) (key : String) (r : FreeRule) : Bool :=
  r.key = key && r.applies values

theorem FreeRule.lookup_warnings (values : String → String) (key : String)
    (rules : List FreeRule) :
    (FreeRule.warnings values rules).lookup key =
      (rules.find? (FreeRule.warnsOf values key)).map (·.message) := by
  induction rules with
  | nil => rfl
  | cons r rules ih =>
    rw [FreeRule.warnings, List.find?_cons]
    by_cases happlies : r.applies values = true
    · by_cases hkey : r.key = key
      · simp [FreeRule.warnsOf, happlies, hkey]
      · have hne : (key == r.key) = false := by simpa using Ne.symm hkey
        simp [FreeRule.warnsOf, happlies, hkey, List.lookup_cons, hne,
          Entries.lookup_erase_of_ne (Ne.symm hkey), ih]
    · simp [FreeRule.warnsOf, happlies, ih]

/-! ## The value that is shown -/

theorem EditBuffer.get?_of_mem {b : EditBuffer} (h : b.keys.Nodup) {e : Edit} (he : e ∈ b.edits) :
    b.get? e.key = some e.value := by
  rw [EditBuffer.get?, EditBuffer.find?_of_mem h he]
  rfl

theorem EditBuffer.get?_eq_none {b : EditBuffer} {key : String} (h : ∀ e ∈ b.edits, e.key ≠ key) :
    b.get? key = none := by
  have hnone : b.edits.find? (·.key = key) = none := by
    rw [List.find?_eq_none]
    exact fun e he => by simpa using h e he
  rw [EditBuffer.get?, EditBuffer.find?, hnone]
  rfl

theorem Engine.effective_eq {first : Setting} {key : String}
    (hfirst : g.catalog.find? key = some first) :
    g.effective key = (g.edits.get? key).getD first.value := by
  rw [Engine.effective, effectiveValue, Catalog.value?, hfirst]
  cases g.edits.get? key <;> rfl

/-- Whether there is an edit or not, a row is dirty if what it shows is not the confirmed value. -/
theorem Engine.dirty_iff {first : Setting} {key : String}
    (hfirst : g.catalog.find? key = some first) :
    g.dirty key = true ↔ g.effective key ≠ first.value := by
  rw [g.effective_eq hfirst, Engine.dirty, isDirty, Catalog.value?, hfirst]
  cases g.edits.get? key with
  | none => simp
  | some value => simp [ne_comm (a := first.value)]

/-! ## Warnings and durations -/

/-- The number at the front of a value lies strictly outside the bounds that are set. -/
def Threshold.Crossed (t : Threshold) (value : String) : Prop :=
  ∃ n, frontNumber? value = some n ∧
    ((∃ bound, t.above = some bound ∧ bound.isBelow n = true) ∨
      ∃ bound, t.below = some bound ∧ bound.isAbove n = true)

theorem Threshold.crossed_iff (t : Threshold) (value : String) :
    t.Crossed value ↔ (frontNumber? value).any t.isCrossedBy = true := by
  unfold Threshold.Crossed Threshold.isCrossedBy
  cases frontNumber? value with
  | none => simp
  | some n => cases t.above <;> cases t.below <;> simp

theorem Engine.advice_of_rule {rules : List FreeRule} {key : String} {rule : FreeRule}
    (h : rules.find? (FreeRule.warnsOf g.effective key) = some rule) :
    g.advice key (g.ruled rules key) = some rule.message := by
  rw [Engine.ruled, FreeRule.lookup_warnings, h]
  rfl

theorem Engine.advice_of_no_rule {rules : List FreeRule} {key : String}
    (h : rules.find? (FreeRule.warnsOf g.effective key) = none) (message : String) :
    g.advice key (g.ruled rules key) = some message ↔
      ∃ t, (g.metas.lookup key).bind (·.threshold) = some t ∧ t.Crossed (g.effective key) ∧
        message = t.message := by
  rw [Engine.ruled, FreeRule.lookup_warnings, h]
  simp only [Engine.advice, Engine.compared?, Option.map_none, Option.none_or, Option.isSome_none,
    Bool.false_eq_true, if_false]
  cases (g.metas.lookup key).bind (·.threshold) with
  | none => simp
  | some t =>
    rw [Option.bind_some]
    by_cases hcrossed : t.Crossed (g.effective key)
    · simp [(t.crossed_iff _).1 hcrossed, hcrossed, eq_comm (a := message)]
    · simp [mt (t.crossed_iff _).2 hcrossed, hcrossed]

namespace Panel

theorem inWords_eq_some_iff {known? : Option SettingMeta} {value text : String} :
    inWords known? value = some text ↔
      ∃ known n, known? = some known ∧ known.inputType = .duration ∧
        frontNumber? value = some n ∧ 0 ≤ n ∧ durationText n = .ok text := by
  cases known? with
  | none => simp [inWords, IsDuration]
  | some known =>
    by_cases hduration : known.inputType = .duration
    · cases hnumber : frontNumber? value with
      | none => simp [inWords, IsDuration, hduration, hnumber]
      | some n =>
        by_cases hn : 0 ≤ n
        · cases htext : durationText n <;>
            simp [inWords, IsDuration, hduration, hnumber, hn, htext, Option.filter,
              Except.toOption]
        · simp [inWords, IsDuration, hduration, hnumber, hn, Option.filter]
    · simp [inWords, IsDuration, hduration]

/-- There are words for every duration that is read and is not negative. -/
theorem inWords_isSome_iff {known? : Option SettingMeta} {value : String}
    (h : ¬ (IsDuration known? ∧ TooLong value)) :
    (inWords known? value).isSome = true ↔
      ∃ known n, known? = some known ∧ known.inputType = .duration ∧
        frontNumber? value = some n ∧ 0 ≤ n := by
  rw [Option.isSome_iff_exists]
  constructor
  · rintro ⟨text, htext⟩
    obtain ⟨known, n, hknown, hduration, hnumber, hn, -⟩ := inWords_eq_some_iff.1 htext
    exact ⟨known, n, hknown, hduration, hnumber, hn⟩
  · rintro ⟨known, n, rfl, hduration, hnumber, hn⟩
    have hknown : IsDuration (some known) := by simp [IsDuration, hduration]
    obtain ⟨text, htext⟩ := durationText_of_not_tooLong (fun hlong => h ⟨hknown, hlong⟩) hnumber hn
    exact ⟨text, inWords_of_ok hknown hnumber hn htext⟩

/-! ## Rows -/

/-- A row shows a setting as the engine has it, where `first` is the first row of its key in the
catalog. -/
structure ShowsSetting (rules : List FreeRule) (g : Engine ω) (first : Setting) (r : SettingView) :
    Prop where
  found : g.catalog.find? r.setting.key = some first
  shown : r.effective = g.effective r.setting.key
  edited : ∀ e ∈ g.edits.edits, e.key = r.setting.key → r.effective = e.value
  unedited : (∀ e ∈ g.edits.edits, e.key ≠ r.setting.key) → r.effective = first.value
  dirty : r.dirty = true ↔ r.effective ≠ first.value
  /-- The first rule counts that warns of the key. -/
  ruled : ∀ rule, rules.find? (FreeRule.warnsOf g.effective r.setting.key) = some rule →
    r.warning? = some rule.message
  /-- Without such a rule it is the threshold that counts. -/
  unruled : rules.find? (FreeRule.warnsOf g.effective r.setting.key) = none →
    ∀ message, r.warning? = some message ↔
      ∃ t, (g.metas.lookup r.setting.key).bind (·.threshold) = some t ∧ t.Crossed r.effective ∧
        message = t.message
  /-- A duration that is not negative is put into words, and these are its own. -/
  worded : r.display?.isSome = true ↔
    ∃ known n, g.metas.lookup r.setting.key = some known ∧ known.inputType = .duration ∧
      frontNumber? r.effective = some n ∧ 0 ≤ n
  words : ∀ text, r.display? = some text ↔
    ∃ known n, g.metas.lookup r.setting.key = some known ∧ known.inputType = .duration ∧
      frontNumber? r.effective = some n ∧ 0 ≤ n ∧ durationText n = .ok text

theorem row_showsSetting {g : Engine ω} (hnodup : g.edits.keys.Nodup) {rules : List FreeRule}
    {first s : Setting} (hread : ¬ Balks rules g s.key)
    (hfirst : g.catalog.find? s.key = some first) :
    ShowsSetting rules g first (row rules g s) where
  found := hfirst
  shown := rfl
  edited := by
    intro e he hkey
    change g.effective s.key = e.value
    rw [g.effective_eq hfirst]
    have hkey : e.key = s.key := hkey
    rw [← hkey, EditBuffer.get?_of_mem hnodup he]
    rfl
  unedited := by
    intro hnone
    change g.effective s.key = first.value
    have hnone : g.edits.get? s.key = none := EditBuffer.get?_eq_none hnone
    rw [g.effective_eq hfirst, hnone]
    rfl
  dirty := g.dirty_iff hfirst
  ruled := fun _ hrule => Engine.advice_of_rule hrule
  unruled := fun hnone message => Engine.advice_of_no_rule hnone message
  worded := inWords_isSome_iff fun h => hread ⟨h.2, .inl h.1⟩
  words := fun _ => inWords_eq_some_iff

/-! ## The whole view -/

/-- A view shows the state of an engine as it is. -/
structure ShowsState (rules : List FreeRule) (g : Engine ω) (v : View) : Prop where
  /-- The categories and their rows are those of the catalog. -/
  rows : v.categories.map (fun (name, rows) => (name, rows.map (·.setting))) = g.catalog.categories
  settings : ∀ category ∈ v.categories, ∀ r ∈ category.2, ∃ first, ShowsSetting rules g first r
  indicator : v.saveState.indicator = g.board.indicator
  pending : v.saveState.pendingKeys = g.edits.edits.map (·.key)
  once : v.saveState.pendingKeys.Nodup
  /-- The edits stand in the order in which they were made. -/
  ordered : g.edits.edits.Pairwise (·.revision < ·.revision)

/-- A key of a row has a first row. -/
theorem exists_first {c : Catalog} {s : Setting} (h : s ∈ c.rows) :
    ∃ first, c.find? s.key = some first := by
  have hsome : (c.find? s.key).isSome = true := by
    simpa [Catalog.find?] using ⟨s, h, rfl⟩
  exact Option.isSome_iff_exists.1 hsome

theorem view_showsState {g : Engine ω} (h : g.edits.Orderly) {rules : List FreeRule}
    (hread : ∀ s ∈ g.catalog.rows, ¬ Balks rules g s.key) :
    ShowsState rules g (view rules g) where
  rows := by
    have hid : (fun c : String × List Setting => (c.1, c.2.map fun s => (row rules g s).setting)) =
        id := by
      funext c
      simp [row]
    simp only [view, List.map_map, Function.comp_def]
    rw [hid, List.map_id]
  settings := by
    intro category hcategory r hr
    obtain ⟨⟨name, rows⟩, hrows, rfl⟩ := List.mem_map.1 hcategory
    obtain ⟨s, hs, rfl⟩ := List.mem_map.1 hr
    have hmem : s ∈ g.catalog.rows := List.mem_flatMap.2 ⟨_, hrows, hs⟩
    obtain ⟨first, hfirst⟩ := exists_first hmem
    exact ⟨first, row_showsSetting h.nodup (hread s hmem) hfirst⟩
  indicator := rfl
  pending := rfl
  once := h.nodup
  ordered := h.growing

end Panel

namespace Course

/-- Whatever has happened to an engine: if its view can be built at all, it shows the state as it
is, and this is what a request for the view is answered. As long as listeners make no edits, the
pending keys stand in the order in which they were edited last. -/
theorem view_shows_state {c : Course ω}
    (hreach : c.Reachable (fun _ _ => True) (Listening fun _ _ => True)) {rules : List FreeRule}
    {v : Panel.View} (hview : Panel.viewUnder rules c.engine = .ok v) :
    Panel.ShowsState rules c.engine v ∧
      (∀ log, c.Edited log →
        c.engine.edits.items.Sublist (lastEdits log) ∧
          v.saveState.pendingKeys.Sublist (log.map (·.1)).dedup) ∧
      (rules = c.engine.rules.map CrossRule.free → c.engine.closed = false →
        ∀ (acting : Engine.Acting ω) (breakers : Breakers) (r : Panel.Request),
          Panel.destination r.method r.address = .route .view →
          Panel.serve acting (some c.engine) breakers r =
            .answer (some c.engine) ⟨200, .json v.toJson⟩) := by
  obtain ⟨hread, hwhole⟩ : (∀ s ∈ c.engine.catalog.rows, ¬ Panel.Balks rules c.engine s.key) ∧
      v = Panel.view rules c.engine := by
    obtain ⟨_, -, -, hrefused⟩ | ⟨hread, hshown⟩ := Panel.viewUnder_cases rules c.engine
    · cases hrefused.symm.trans hview
    · exact ⟨hread, Except.ok.inj (hview.symm.trans hshown)⟩
  refine ⟨?_, ?_, ?_⟩
  · rw [hwhole]
    exact Panel.view_showsState hreach.sound.ledger.orderly hread
  · intro log hedited
    have hitems := hedited.sublist
    have hkeys : v.saveState.pendingKeys = c.engine.edits.items.map (·.1) := by
      simp [hwhole, Panel.view, Panel.SaveState.of, EditBuffer.keys, EditBuffer.items]
    rw [hkeys, ← keys_lastEdits]
    exact ⟨hitems, hitems.map _⟩
  · intro hrules hopen acting breakers r hroute
    rw [hrules, ← Panel.view_eq] at hview
    rw [Panel.serve, hroute]
    simp [Panel.serveRoute, hopen, Panel.Answer.view, hview]

/-- A course in which two settings are edited that a rule puts together, one of them twice. -/
def privateDeposits : Course Unit :=
  let mode : Setting := ⟨"wallet_recovery_mode", "email", none, .epoch, none⟩
  let privacy : Setting := ⟨"deposit_privacy_enabled", "false", none, .epoch, none⟩
  (start MetaTable.builtIn CrossRule.standard 1 2).run Engine.silent [
    .call .refresh,
    .turn (.loaded 1 (.ok [("wallet", [mode]), ("deposits", [privacy, Panel.period, mode])])),
    .call (.change privacy.key "true"), .call (.change Panel.period.key "90000s"),
    .call (.change privacy.key "true")]

theorem edited_privateDeposits : privateDeposits.Edited [
    ("deposit_privacy_enabled", "true"), ("privacy_period_secs", "90000s"),
    ("deposit_privacy_enabled", "true")] := by
  have hlisten : Editless (Engine.silent : Engine.Acting Unit) := .aloof aloof_silent
  exact (Edited.start MetaTable.builtIn CrossRule.standard 1 2).run hlisten (by decide)

/-- The privacy is edited last and stands last. Its value decides about the warning beside another
setting, which has two rows. -/
theorem private_deposits_are_shown :
    let g := privateDeposits.engine
    let rules := g.rules.map CrossRule.free
    let v := Panel.view rules g
    Panel.ShowsState rules g v ∧
      v.saveState.pendingKeys = ["privacy_period_secs", "deposit_privacy_enabled"] ∧
      v.categories.map (fun c => c.2.map fun r => (r.effective, r.dirty, r.warning?.isSome)) =
        [[("email", false, true)],
          [("true", true, false), ("90000s", true, false), ("email", false, true)]] := by
  have hview : Panel.viewUnder (privateDeposits.engine.rules.map CrossRule.free)
      privateDeposits.engine = .ok (Panel.view (privateDeposits.engine.rules.map CrossRule.free)
        privateDeposits.engine) := by
    have hnone : privateDeposits.engine.catalog.rows.find? (Panel.Balks
        (privateDeposits.engine.rules.map CrossRule.free) privateDeposits.engine ·.key) = none := by
      decide +kernel
    rw [Panel.viewUnder_eq, hnone]
  have hreach := edited_privateDeposits.reachable.mono (fun _ _ h => h) fun _ h => h.any
  obtain ⟨hshows, -, -⟩ := view_shows_state hreach hview
  exact ⟨hshows, by decide +kernel, by decide +kernel⟩

end Course

end DeferredSave
