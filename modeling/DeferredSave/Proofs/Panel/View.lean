import DeferredSave.Meta.BuiltIn
import DeferredSave.Panel.Service
import DeferredSave.Proofs.Advice.Duration
import DeferredSave.Proofs.Course.Basic

/-!
# When the panel can be shown

A row of the panel reads the number at the front of its value, to put a duration into words and to
compare it with a threshold. A value without a number only loses these. A number of more than
`Number.digitLimit` digits is not read, and then the whole panel is not shown
(`Panel.view_is_shown_iff`).
-/

namespace DeferredSave

/-! ## Rules of any kind -/

/-- A warning on a key under a condition on the values of all settings. -/
structure FreeRule where
  key : String
  message : String
  applies : (String → String) → Bool

/-- The messages of the rules that apply, by key in rule order; the first rule for a key counts. -/
def FreeRule.warnings (values : String → String) : List FreeRule → List (String × String)
  | [] => []
  | r :: rules =>
    let rest := warnings values rules
    if r.applies values then (r.key, r.message) :: Entries.erase r.key rest else rest

/-- A rule whose condition is made of comparisons. -/
def CrossRule.free (r : CrossRule) : FreeRule := ⟨r.key, r.message, r.applies⟩

theorem CrossRule.warnings_eq (values : String → String) (rules : List CrossRule) :
    CrossRule.warnings values rules = FreeRule.warnings values (rules.map free) := by
  induction rules with
  | nil => rfl
  | cons r rules ih => simp [CrossRule.warnings, FreeRule.warnings, ih, free]

variable {ω : Type}

namespace Engine

/-- The warning that the rules have for a key. -/
def ruled (g : Engine ω) (rules : List FreeRule) (key : String) : Option String :=
  (FreeRule.warnings g.effective rules).lookup key

/-- The warning for a key under rules of any kind. -/
def warningUnder (g : Engine ω) (rules : List FreeRule) (key : String) (external : Option String) :
    Except Number.TooManyDigits (Option String) :=
  g.metas.warning key (g.effective key) (external.or (g.ruled rules key))

theorem warning_eq (g : Engine ω) (key : String) (external : Option String) :
    g.warning key external = g.warningUnder (g.rules.map CrossRule.free) key external := by
  rw [warning, ruleWarnings, CrossRule.warnings_eq]
  rfl

/-- The threshold that the value of a key is compared with: that of its description, unless there is
a warning that comes before. -/
def compared? (g : Engine ω) (key : String) (warned : Option String) : Option Threshold :=
  if warned.isSome then none else (g.metas.lookup key).bind (·.threshold)

/-- The warning for a key when its number is read. -/
def advice (g : Engine ω) (key : String) (warned : Option String) : Option String :=
  warned.or ((g.compared? key warned).bind fun t =>
    if (frontNumber? (g.effective key)).any t.isCrossedBy then some t.message else none)

theorem warningUnder_eq (g : Engine ω) (rules : List FreeRule) (key : String)
    (external : Option String) :
    let warned := external.or (g.ruled rules key)
    g.warningUnder rules key external =
      if (g.compared? key warned).isSome = true ∧ TooLong (g.effective key) then
        .error (overlong (g.effective key))
      else .ok (g.advice key warned) := by
  unfold warningUnder MetaTable.warning advice compared?
  cases external.or (g.ruled rules key) with
  | some message => simp
  | none =>
    cases (g.metas.lookup key).bind (·.threshold) with
    | none => simp
    | some t =>
      by_cases hlong : TooLong (g.effective key)
      · simp [leadingInt?_of_tooLong hlong, hlong, Except.map]
      · simp [leadingInt?_of_not_tooLong hlong, hlong, Except.map]

end Engine

/-! ## Rows -/

namespace Panel

/-- A setting that is shown as a duration. -/
def IsDuration (known? : Option SettingMeta) : Prop :=
  known?.any (·.inputType = .duration) = true

instance (known? : Option SettingMeta) : Decidable (IsDuration known?) :=
  inferInstanceAs (Decidable (_ = _))

/-- A duration in words when its number is read. -/
def inWords (known? : Option SettingMeta) (value : String) : Option String :=
  if IsDuration known? then
    ((frontNumber? value).filter (0 ≤ ·)).bind fun n => (durationText n).toOption
  else none

theorem inWords_of_ok {known? : Option SettingMeta} {value text : String} {n : Int}
    (h : IsDuration known?) (hnumber : frontNumber? value = some n) (hn : 0 ≤ n)
    (htext : durationText n = .ok text) : inWords known? value = some text := by
  simp [inWords, h, hnumber, hn, htext, Option.filter, Except.toOption]

theorem displayText?_of_not {known? : Option SettingMeta} {value : String}
    (h : ¬ (IsDuration known? ∧ TooLong value)) :
    displayText? known? value = .ok (inWords known? value) := by
  cases known? with
  | none => rfl
  | some known =>
    by_cases hduration : known.inputType = .duration
    · have hknown : IsDuration (some known) := by simp [IsDuration, hduration]
      have hshort : ¬ TooLong value := fun hlong => h ⟨hknown, hlong⟩
      rw [displayText?, leadingInt?_of_not_tooLong hshort, if_pos hduration, inWords,
        if_pos hknown]
      simp only [bind, Except.bind]
      cases hnumber : (frontNumber? value).filter (0 ≤ ·) with
      | none => rfl
      | some n =>
        -- a number that is read is never too long to be put into words
        obtain ⟨hfront, hn⟩ := Option.filter_eq_some_iff.1 hnumber
        obtain ⟨text, htext⟩ := durationText_of_not_tooLong hshort hfront (of_decide_eq_true hn)
        simp only [Option.bind_some, htext]
        rfl
    · simp [displayText?, inWords, IsDuration, hduration]

theorem displayText?_of_tooLong {known? : Option SettingMeta} {value : String}
    (h : IsDuration known?) (hlong : TooLong value) :
    displayText? known? value = .error (overlong value) := by
  cases known? with
  | none => cases h
  | some known =>
    have hduration : known.inputType = .duration := by simpa [IsDuration] using h
    simp [displayText?, hduration, leadingInt?_of_tooLong hlong, bind, Except.bind]

/-- The row of a setting under rules of any kind. -/
def rowUnder (rules : List FreeRule) (g : Engine ω) (s : Setting) :
    Except Number.TooManyDigits SettingView := do
  let known? := g.metas.lookup s.key
  let effective := g.effective s.key
  let display? ← displayText? known? effective
  let warning? ← g.warningUnder rules s.key none
  return { setting := s, known?, effective, display?, dirty := g.dirty s.key, warning? }

/-- The whole view under rules of any kind. -/
def viewUnder (rules : List FreeRule) (g : Engine ω) : Except Number.TooManyDigits View := do
  let categories ← g.catalog.categories.mapM fun (name, rows) =>
    return (name, ← rows.mapM (rowUnder rules g))
  return { categories, saveState := .of g }

theorem view_eq (g : Engine ω) : View.of g = viewUnder (g.rules.map CrossRule.free) g := by
  have hrow : SettingView.of g = rowUnder (g.rules.map CrossRule.free) g := by
    funext s
    rw [SettingView.of, rowUnder, g.warning_eq]
  rw [View.of, viewUnder, hrow]

/-- The row of a setting when its number is read. -/
def row (rules : List FreeRule) (g : Engine ω) (s : Setting) : SettingView where
  setting := s
  known? := g.metas.lookup s.key
  effective := g.effective s.key
  display? := inWords (g.metas.lookup s.key) (g.effective s.key)
  dirty := g.dirty s.key
  warning? := g.advice s.key (g.ruled rules s.key)

/-- The row of a key is to read a number that is too long. -/
def Balks (rules : List FreeRule) (g : Engine ω) (key : String) : Prop :=
  TooLong (g.effective key) ∧
    (IsDuration (g.metas.lookup key) ∨ (g.compared? key (g.ruled rules key)).isSome = true)

instance (rules : List FreeRule) (g : Engine ω) (key : String) : Decidable (Balks rules g key) :=
  inferInstanceAs (Decidable (_ ∧ _))

theorem rowUnder_eq (rules : List FreeRule) (g : Engine ω) (s : Setting) :
    rowUnder rules g s =
      if Balks rules g s.key then .error (overlong (g.effective s.key))
      else .ok (row rules g s) := by
  have hbind : rowUnder rules g s =
      (displayText? (g.metas.lookup s.key) (g.effective s.key)).bind fun display? =>
        (g.warningUnder rules s.key none).map fun warning? =>
          { row rules g s with display?, warning? } := by
    simp only [rowUnder, bind, pure, Except.pure, Except.bind, Except.map, row]
  have hwarning := g.warningUnder_eq rules s.key none
  rw [Option.none_or] at hwarning
  rw [hbind]
  -- the duration comes before the warning, and the first number that is too long ends it all
  by_cases hword : IsDuration (g.metas.lookup s.key) ∧ TooLong (g.effective s.key)
  · have hbalks : Balks rules g s.key := ⟨hword.2, .inl hword.1⟩
    rw [if_pos hbalks, displayText?_of_tooLong hword.1 hword.2]
    rfl
  · rw [displayText?_of_not hword, hwarning]
    by_cases hcompared : (g.compared? s.key (g.ruled rules s.key)).isSome = true ∧
        TooLong (g.effective s.key)
    · have hbalks : Balks rules g s.key := ⟨hcompared.2, .inr hcompared.1⟩
      simp only [if_pos hcompared, if_pos hbalks]
      rfl
    · have hreads : ¬ Balks rules g s.key := by
        rintro ⟨hlong, hduration | hsome⟩
        · exact hword ⟨hduration, hlong⟩
        · exact hcompared ⟨hsome, hlong⟩
      simp only [if_neg hcompared, if_neg hreads]
      rfl

/-! ## The whole view -/

/-- Rows are read in order up to the first that cannot be. -/
theorem mapM_eq {α β ε : Type} {f : α → Except ε β} {p : α → Prop} [DecidablePred p]
    {e : α → ε} {h : α → β} (hf : ∀ x, f x = if p x then .error (e x) else .ok (h x))
    (xs : List α) :
    xs.mapM f =
      match xs.find? (p ·) with
      | some x => .error (e x)
      | none => .ok (xs.map h) := by
  induction xs with
  | nil => rfl
  | cons x xs ih =>
    rw [List.mapM_cons, hf x, List.find?_cons]
    by_cases hx : p x
    · simp [hx, bind, Except.bind]
    · rw [ih]
      simp only [hx, if_false, decide_false, bind, Except.bind]
      cases xs.find? (p ·) <;> rfl

/-- The whole view when all numbers are read. -/
def view (rules : List FreeRule) (g : Engine ω) : View where
  categories := g.catalog.categories.map fun (name, rows) => (name, rows.map (row rules g))
  saveState := .of g

theorem viewUnder_eq (rules : List FreeRule) (g : Engine ω) :
    viewUnder rules g =
      match g.catalog.rows.find? (Balks rules g ·.key) with
      | some s => .error (overlong (g.effective s.key))
      | none => .ok (view rules g) := by
  -- categories one after the other are all rows one after the other
  have hall (cs : List (String × List Setting)) :
      (cs.mapM fun (name, rows) => return (name, ← rows.mapM (rowUnder rules g))) =
        match (cs.flatMap (·.2)).find? (Balks rules g ·.key) with
        | some s => .error (overlong (g.effective s.key))
        | none => .ok (cs.map fun (name, rows) => (name, rows.map (row rules g))) := by
    induction cs with
    | nil => rfl
    | cons c cs ih =>
      obtain ⟨name, rows⟩ := c
      rw [List.mapM_cons, ih, List.flatMap_cons, List.find?_append]
      simp only [mapM_eq (rowUnder_eq rules g) rows]
      cases rows.find? (Balks rules g ·.key) with
      | some s => rfl
      | none =>
        rw [Option.none_or]
        cases (cs.flatMap (·.2)).find? (Balks rules g ·.key) <;> rfl
  unfold viewUnder Catalog.rows
  rw [hall]
  cases (g.catalog.categories.flatMap (·.2)).find? (Balks rules g ·.key) <;> rfl

/-- Either some row balks and the view is refused, or none does and the view is the whole one. -/
theorem viewUnder_cases (rules : List FreeRule) (g : Engine ω) :
    (∃ s ∈ g.catalog.rows, Balks rules g s.key ∧
        viewUnder rules g = .error (overlong (g.effective s.key))) ∨
      ((∀ s ∈ g.catalog.rows, ¬ Balks rules g s.key) ∧
        viewUnder rules g = .ok (view rules g)) := by
  have hview := viewUnder_eq rules g
  cases hfind : g.catalog.rows.find? (Balks rules g ·.key) with
  | some s =>
    have hbalks : Balks rules g s.key := by simpa using List.find?_some hfind
    rw [hfind] at hview
    exact .inl ⟨s, List.mem_of_find?_eq_some hfind, hbalks, hview⟩
  | none =>
    rw [hfind] at hview
    exact .inr ⟨by simpa using hfind, hview⟩

/-- The panel is shown, and shows all that there is, but for numbers that are too long. -/
structure ShownUnlessTooLong (rules : List FreeRule) (g : Engine ω) : Prop where
  /-- It is not shown exactly when a row is to read a number that is too long. -/
  shown : (∃ v, viewUnder rules g = .ok v) ↔ ∀ s ∈ g.catalog.rows, ¬ Balks rules g s.key
  /-- What is shown is the whole catalog. -/
  whole : ∀ v, viewUnder rules g = .ok v → v = view rules g
  /-- Otherwise the length of such a number is told. -/
  told : ∀ e, viewUnder rules g = .error e →
    ∃ s ∈ g.catalog.rows, Balks rules g s.key ∧ e = overlong (g.effective s.key)
  /-- A value without a number stands in nobody's way. It only has no duration in words, and no
  warning but that of a rule. -/
  unread : ∀ s, frontNumber? (g.effective s.key) = none →
    ¬ Balks rules g s.key ∧
      row rules g s =
        { setting := s, known? := g.metas.lookup s.key, effective := g.effective s.key,
          display? := none, dirty := g.dirty s.key, warning? := g.ruled rules s.key }
  /-- A duration that is not negative is put into words, unless it is too long to be read. -/
  worded : ∀ s n, IsDuration (g.metas.lookup s.key) → ¬ TooLong (g.effective s.key) →
    frontNumber? (g.effective s.key) = some n → 0 ≤ n →
    ∃ text, durationText n = .ok text ∧ (row rules g s).display? = some text
  /-- There is an answer to the question for a warning unless a number that is too long is to be
  compared with a threshold. -/
  warned : ∀ key external, (∃ w?, g.warningUnder rules key external = .ok w?) ↔
    ¬ ((g.compared? key (external.or (g.ruled rules key))).isSome = true ∧
      TooLong (g.effective key))
  /-- Who asks for the view of an engine is shown it, or told that something is broken. -/
  served : ∀ (acting : Engine.Acting ω) (breakers : Breakers) (r : Request), g.closed = false →
    destination r.method r.address = .route .view →
    serve acting (some g) breakers r =
      .answer (some g)
        (if ∀ s ∈ g.catalog.rows, ¬ Balks (g.rules.map CrossRule.free) g s.key then
          ⟨200, .json (view (g.rules.map CrossRule.free) g).toJson⟩
        else .broken)

theorem answer_view (g : Engine ω) :
    Answer.view g =
      if ∀ s ∈ g.catalog.rows, ¬ Balks (g.rules.map CrossRule.free) g s.key then
        ⟨200, .json (view (g.rules.map CrossRule.free) g).toJson⟩
      else .broken := by
  rw [Answer.view, view_eq]
  obtain ⟨s, hs, hbalks, heq⟩ | ⟨hnone, heq⟩ := viewUnder_cases (g.rules.map CrossRule.free) g
  · rw [heq, if_neg fun hnone => hnone s hs hbalks]
  · rw [heq, if_pos hnone]

theorem unread_row (rules : List FreeRule) (g : Engine ω) {s : Setting}
    (h : frontNumber? (g.effective s.key) = none) :
    row rules g s =
      { setting := s, known? := g.metas.lookup s.key, effective := g.effective s.key,
        display? := none, dirty := g.dirty s.key, warning? := g.ruled rules s.key } := by
  simp [row, inWords, Engine.advice, h]

/-- For every engine, whatever its catalog, its edits, its descriptions and the rules. -/
theorem view_is_shown_iff (rules : List FreeRule) (g : Engine ω) : ShownUnlessTooLong rules g := by
  refine
    { shown := ?_
      whole := ?_
      told := ?_
      unread := ?_
      worded := ?_
      warned := ?_
      served := ?_ }
  · obtain ⟨s, hs, hbalks, heq⟩ | ⟨hnone, heq⟩ := viewUnder_cases rules g
    · refine iff_of_false ?_ fun hnone => hnone s hs hbalks
      rintro ⟨v, hv⟩
      cases heq.symm.trans hv
    · exact iff_of_true ⟨_, heq⟩ hnone
  · intro v hv
    obtain ⟨s, -, -, heq⟩ | ⟨-, heq⟩ := viewUnder_cases rules g
    · cases heq.symm.trans hv
    · exact (Except.ok.inj (heq.symm.trans hv)).symm
  · intro e he
    obtain ⟨s, hs, hbalks, heq⟩ | ⟨-, heq⟩ := viewUnder_cases rules g
    · exact ⟨s, hs, hbalks, (Except.error.inj (heq.symm.trans he)).symm⟩
    · cases heq.symm.trans he
  · intro s hs
    exact ⟨fun hbalks => not_tooLong_of_frontNumber? hs hbalks.1, unread_row rules g hs⟩
  · intro s n hduration hshort hnumber hn
    obtain ⟨text, htext⟩ := durationText_of_not_tooLong hshort hnumber hn
    exact ⟨text, htext, inWords_of_ok hduration hnumber hn htext⟩
  · intro key external
    rw [g.warningUnder_eq]
    split <;> simp_all
  · intro acting breakers r hopen hroute
    rw [serve, hroute, ← answer_view g]
    simp [serveRoute, hopen]

/-! ### A number that is too long -/

/-- A row of nines. -/
def nines (n : Nat) : String := String.ofList (List.replicate n '9')

theorem frontDigits_nines (n : Nat) : frontDigits (nines (n + 1)) = List.replicate (n + 1) 9 := by
  have hdigits (m : Nat) : leadingDigits (List.replicate m '9') = List.replicate m 9 := by
    induction m with
    | zero => rfl
    | succ m ih =>
      have hnine : Text.digitValue? '9' = some 9 := by decide
      rw [List.replicate_succ, leadingDigits, hnine, ih, List.replicate_succ]
  have hfront : (front (nines (n + 1))).2 = List.replicate (n + 1) '9' := by
    have hblank : Text.isBlank '9' = false := by decide
    rw [front, nines, String.toList_ofList, List.replicate_succ, List.dropWhile_cons, hblank]
    rfl
  rw [frontDigits, hfront, hdigits]

/-- A duration, and an engine in which it has been edited. -/
def period : Setting := ⟨"privacy_period_secs", "3600", none, .epoch, none⟩

def typed (value : String) : Engine Unit :=
  let g : Engine Unit := .new MetaTable.builtIn CrossRule.standard 1 2
  ({ g with catalog := ⟨[("general", [period])]⟩ }.change Engine.silent period.key value).1

section Typed

variable {value : String} (h : TooLong value)
include h

theorem view_typed : View.of (typed value) = .error (overlong value) := by
  have hbalks : Balks ((typed value).rules.map CrossRule.free) (typed value) period.key :=
    ⟨h, .inl rfl⟩
  have hfind : (typed value).catalog.rows.find?
      (Balks ((typed value).rules.map CrossRule.free) (typed value) ·.key) = some period :=
    List.find?_cons_of_pos (by simpa using hbalks)
  rw [view_eq, viewUnder_eq, hfind]
  rfl

theorem warning_typed : (typed value).warning period.key none = .error (overlong value) := by
  rw [Engine.warning_eq, Engine.warningUnder_eq]
  exact if_pos ⟨rfl, h⟩

theorem serve_typed :
    serve Engine.silent (some (typed value)) [] ⟨.get, "/api/settings", none⟩ =
      .answer (some (typed value)) .broken := by
  have hroute : destination .get "/api/settings" = .route .view := by decide +kernel
  have hopen : (typed value).closed = false := rfl
  rw [serve, hroute]
  simp [serveRoute, Answer.view, view_typed h, hopen]

end Typed

/-- Nobody is shown a panel in which a number of too many digits has just been typed. -/
theorem long_number_hides_panel :
    View.of (typed (nines 4301)) = .error (.read 4301) ∧
      (typed (nines 4301)).warning period.key none = .error (.read 4301) ∧
      serve Engine.silent (some (typed (nines 4301))) [] ⟨.get, "/api/settings", none⟩ =
        .answer (some (typed (nines 4301))) .broken := by
  have hlong : TooLong (nines 4301) := by
    rw [TooLong, frontDigits_nines, List.length_replicate]
    decide
  have hcount : overlong (nines 4301) = .read 4301 := by
    rw [overlong, frontDigits_nines, List.length_replicate]
  rw [← hcount]
  exact ⟨view_typed hlong, warning_typed hlong, serve_typed hlong⟩

end Panel

end DeferredSave
