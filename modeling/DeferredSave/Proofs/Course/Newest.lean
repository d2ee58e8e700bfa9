import DeferredSave.Proofs.Course.Loading

/-!
# The newest load wins

Loads are asked for from outside and after saves, any number of them at the same time, and they are
answered in any order. A load is known by its place among all loads that the store was asked for;
the engine counts them alike (`Course.Numbered`). Each event starts one load at most, or takes the
answer of one (`Course.counts_after`). So of all loads only the one that was started last can bring
a catalog, and only it can fail (`Course.newest_load_wins`).
-/

namespace DeferredSave

variable {ω : Type} {acting : Engine.Acting ω} {g g' : Engine ω}
  {admitted : Engine ω → Call ω → Prop} {ev : Event ω}

/-! ## The load of a flight -/

/-- The load that a flight waits for. -/
def Flight.load? : Flight → Option Nat
  | reloading _ _ load => some load
  | none | waiting | saving _ => Option.none

namespace Engine

theorem Rounded.load? (h : g.Rounded) : g.flight.load? = none := by
  obtain hnone | ⟨batch, hsaving⟩ := h
  · rw [hnone]
    rfl
  · rw [hsaving]
    rfl

/-- From `g` to `g'` no load is started, and none is answered. -/
structure Skips (g g' : Engine ω) : Prop extends Tallied g g' where
  load : g'.flight.load? = g.flight.load?

theorem Skips.refl (g : Engine ω) : Skips g g := ⟨(Shelved.refl g).toTallied, rfl⟩

/-- Only the loads, the flight and the outbox matter. -/
theorem Skips.of_eq {g₀ : Engine ω} (h : Skips g₀ g) (hloads : g'.loads = g.loads)
    (hloading : g'.loading = g.loading) (houtbox : g'.outbox = g.outbox)
    (hflight : g'.flight = g.flight) : Skips g₀ g' where
  loads := hloads.trans h.loads
  loading := hloading.trans h.loading
  fetches := by
    rw [← h.fetches]
    unfold Engine.fetches asks
    rw [houtbox]
  load := hflight ▸ h.load

theorem Beside.skips (h : Beside g g') : Skips g g' :=
  ⟨h.shelved.toTallied, congrArg Flight.load? h.flight⟩

theorem Shelved.skips (h : Shelved g g') (hbefore : g.flight.load? = none)
    (hafter : g'.flight.load? = none) : Skips g g' :=
  ⟨h.toTallied, hafter.trans hbefore.symm⟩

/-- A flight that is only asked for waits for no load. -/
theorem Skips.launch {g₀ : Engine ω} (h : Skips g₀ g) (hflying : g.flying = false) :
    Skips g₀ g.launch := by
  have hnone : g.flight = .none := by simpa [flying] using hflying
  have hload : g.flight.load? = none := by rw [hnone]; rfl
  have hlaunch := (Shelved.refl g).launch
  exact ⟨⟨hlaunch.loads.trans h.loads, hlaunch.loading.trans h.loading,
    hlaunch.fetches.trans h.fetches⟩, hload.symm.trans h.load⟩

theorem flushNow_skips (g : Engine ω) : Skips g g.flushNow.1 := by
  have hquiet : Skips g { g with quiet := g.quiet.cancel } := (Skips.refl g).of_eq rfl rfl rfl rfl
  rcases flushNow_cases g with ⟨-, heq⟩ | ⟨-, -, heq⟩ | ⟨-, -, -, heq⟩ | ⟨-, hflying, -, heq⟩
  · rw [heq]
    exact .refl g
  · rw [heq]
    exact hquiet.of_eq rfl rfl rfl rfl
  · rw [heq]
    exact hquiet
  · rw [heq]
    exact hquiet.launch hflying

theorem Skips.quietOver {g₀ : Engine ω} (h : Skips g₀ g) : Skips g₀ g.quietOver := by
  rcases quietOver_cases g with ⟨-, heq⟩ | ⟨-, -, heq⟩ | ⟨-, hflying, heq⟩
  · rwa [heq]
  · rw [heq]
    exact h.of_eq rfl rfl rfl rfl
  · rw [heq]
    exact h.launch hflying

section

variable (hlisten : Listening admitted acting)
include hlisten

theorem Skips.shownOver {g₀ : Engine ω} (h : Skips g₀ g) : Skips g₀ (g.shownOver acting) := by
  rcases shownOver_cases acting g with heq | ⟨-, -, htold⟩
  · rwa [heq]
  · have htold' := (Shelved.refl g).told hlisten htold
    exact ⟨⟨htold'.loads.trans h.loads, htold'.loading.trans h.loading,
      htold'.fetches.trans h.fetches⟩, (congrArg Flight.load? (htold.flight hlisten)).trans h.load⟩

theorem takeOff_skips (h : g.flight = .waiting) : Skips g (g.takeOff acting) := by
  have hdone : Shelved g { g with requested := false } := (Shelved.refl g).of_eq rfl rfl rfl rfl
  exact (hdone.sendBatch hlisten).skips (by rw [h]; rfl) (sendBatch_rounded acting _).load?

/-- When a save is answered, a load is started if the batch is stored. -/
theorem updated_skips {batch : Batch} (h : g.flight = .saving batch)
    (answer : Except Failure (List Setting)) :
    Skips g (g.updated acting answer) ∨
      ∃ rows, g.updated acting answer = g.reloads batch rows := by
  have hnone : g.flight.load? = none := by rw [h]; rfl
  have hsame := Shelved.refl g
  rcases updated_cases acting h answer with
    ⟨-, heq⟩ | ⟨-, rows, -, heq⟩ | ⟨-, f, -, ⟨-, failure?, heq⟩ | ⟨g', htold, heq⟩⟩
  · exact .inl (heq ▸ (hsame.endRound hlisten).skips hnone (endRound_rounded acting g).load?)
  · exact .inr ⟨rows, heq⟩
  · exact .inl (heq ▸ (hsame.land failure?).skips hnone rfl)
  · have hround := (hsame.told hlisten htold).endRound hlisten
    exact .inl (heq ▸ hround.skips hnone (endRound_rounded acting g').load?)

end

/-- What one is given who asked for a new catalog, once the load is answered. -/
def refreshed (g : Engine ω) (load : Nat) (answer : Except Failure Categories) :
    Except Failure Catalog :=
  (g.finishLoad load answer).2.map fun _ => (g.finishLoad load answer).1.catalog

end Engine

namespace Course

variable {c c' : Course ω}

/-! ## What an event does to the loads -/

/-- The number of loads that the store was asked for. -/
def fetches (c : Course ω) : Nat := c.asked.count .fetch

/-- The loads that the store has not answered yet. -/
def unanswered (c : Course ω) : List Nat := c.loads ++ c.engine.flight.load?.toList

/-- The event is the answer of a load. -/
inductive Answers (c : Course ω) (load : Nat) (answer : Except Failure Categories) :
    Event ω → Prop where
  | loaded : Answers c load answer (.turn (.loaded load answer))
  | reloaded {batch : Batch} {rows : List Setting} :
      c.engine.flight = .reloading batch rows load →
      Answers c load answer (.turn (.reloaded answer))

/-- An event leaves the loads as they are, starts one, or takes the answer of one. -/
inductive Counts (c : Course ω) (ev : Event ω) (c' : Course ω) : Prop where
  | still : (∀ load answer, ¬ c.Answers load answer ev) → c'.fetches = c.fetches →
      c'.engine.loads = c.engine.loads → c'.engine.loading = c.engine.loading →
      c'.unanswered = c.unanswered → Counts c ev c'
  | starts : (∀ load answer, ¬ c.Answers load answer ev) → c'.fetches = c.fetches + 1 →
      c'.engine.loads = c.engine.loads + 1 → c'.engine.loading = true →
      c'.unanswered.Perm ((c.engine.loads + 1) :: c.unanswered) → Counts c ev c'
  | answers {load : Nat} {answer : Except Failure Categories} :
      c.Answers load answer ev → c'.fetches = c.fetches → c'.engine.loads = c.engine.loads →
      c'.engine.loading = (if load = c.engine.loads then false else c.engine.loading) →
      c.unanswered.Perm (load :: c'.unanswered) → Counts c ev c'

theorem fetches_after (c : Course ω) (ev : Event ω) :
    (c.after acting ev).fetches =
      c.fetches + ((c.engine.after acting ev).fetches + (c.askedFor ev).count .fetch) := by
  unfold fetches Engine.fetches after
  dsimp only
  rw [List.count_append, List.count_append]

theorem Sound.fetches (hsound : c.Sound) : c.engine.fetches = 0 := by
  unfold Engine.fetches
  rw [hsound.asks]
  rfl

theorem Counts.of_skips (hsound : c.Sound)
    (h : Engine.Skips c.engine (c.engine.after acting ev))
    (hnone : ∀ load answer, ¬ c.Answers load answer ev) (hloads : c.loadsAfter ev = c.loads)
    (hasked : c.askedFor ev = []) : Counts c ev (c.after acting ev) := by
  refine .still hnone ?_ h.loads h.loading ?_
  · rw [fetches_after, h.fetches, hsound.fetches, hasked]
    rfl
  · change c.loadsAfter ev ++ (c.engine.after acting ev).flight.load?.toList = c.unanswered
    rw [hloads, h.load]
    rfl

theorem counts_refresh (hsound : c.Sound) :
    Counts c (.call .refresh) (c.after acting (.call .refresh)) := by
  have hengine : c.engine.after acting (.call .refresh) = c.engine.refresh.1 := rfl
  cases hclosed : c.engine.closed with
  | true =>
    have hskips : Engine.Skips c.engine (c.engine.after acting (.call .refresh)) := by
      rw [hengine]
      simpa [Engine.refresh, hclosed] using Engine.Skips.refl c.engine
    exact .of_skips hsound hskips (fun _ _ h => by cases h) (if_pos hclosed) (if_pos hclosed)
  | false =>
    have hstarts : c.engine.after acting (.call .refresh) = c.engine.startLoad := by
      rw [hengine]
      simp [Engine.refresh, hclosed]
    have hopen : ¬ c.engine.closed = true := by simp [hclosed]
    have hfetches : (c.askedFor (.call .refresh)).count .fetch = 1 := by
      rw [show c.askedFor (.call .refresh) = [.fetch] from if_neg hopen]
      rfl
    refine .starts (fun _ _ h => by cases h) ?_ ?_ ?_ ?_
    · rw [fetches_after, hstarts, hfetches]
      have := hsound.fetches
      change c.fetches + (c.engine.fetches + 1) = _
      omega
    · exact congrArg Engine.loads hstarts
    · exact congrArg Engine.loading hstarts
    · change (c.loadsAfter (.call .refresh) ++
        (c.engine.after acting (.call .refresh)).flight.load?.toList).Perm _
      rw [hstarts, show c.loadsAfter (.call .refresh) = c.loads ++ [c.engine.loads + 1] from
        if_neg hopen, List.append_assoc]
      exact List.perm_middle

section

variable (hsound : c.Sound) (hlisten : Listening admitted acting)
include hsound hlisten

theorem counts_call (call : Call ω) : Counts c (.call call) (c.after acting (.call call)) := by
  cases hwaits : call.waits with
  | false =>
    have hskips := (Engine.Beside.call (hlisten.beside c.engine) (.refl _) hwaits).skips
    cases call with
    | refresh => cases hwaits
    | change | discard | flushNow | close | subscribe | unsubscribe =>
      exact .of_skips hsound hskips (fun _ _ h => nomatch h) rfl rfl
  | true =>
    cases call with
    | flushNow =>
      have hskips := Engine.flushNow_skips c.engine
      exact .of_skips hsound hskips (fun _ _ h => nomatch h) rfl rfl
    | refresh => exact counts_refresh hsound
    | change | discard | close | subscribe | unsubscribe => cases hwaits

theorem counts_updated {batch : Batch} (hflight : c.engine.flight = .saving batch)
    (answer : Except Failure (List Setting)) :
    Counts c (.turn (.updated answer)) (c.after acting (.turn (.updated answer))) := by
  rcases Engine.updated_skips hlisten hflight answer with hskips | ⟨rows, heq⟩
  · exact .of_skips hsound hskips (fun _ _ h => nomatch h) rfl rfl
  · have hafter : c.engine.after acting (.turn (.updated answer)) = c.engine.reloads batch rows :=
      heq
    refine .starts (fun _ _ h => nomatch h) ?_ ?_ ?_ ?_
    · rw [fetches_after, hafter]
      have hfetches : (c.engine.reloads batch rows).fetches = c.engine.fetches + 1 :=
        Engine.fetches_emit _ _
      rw [hfetches, hsound.fetches]
      rfl
    · exact congrArg Engine.loads hafter
    · exact congrArg Engine.loading hafter
    · change (c.loads ++ (c.engine.after acting _).flight.load?.toList).Perm _
      unfold unanswered
      rw [hafter, hflight]
      exact List.perm_append_comm.trans (by simp [Flight.load?]; rfl)

theorem counts_reloaded {batch : Batch} {rows : List Setting} {load : Nat}
    (hflight : c.engine.flight = .reloading batch rows load) (answer : Except Failure Categories) :
    Counts c (.turn (.reloaded answer)) (c.after acting (.turn (.reloaded answer))) := by
  have htallied := Engine.reloaded_tallied hlisten hflight answer
  have hload : (c.engine.reloaded acting answer).flight.load? = none :=
    (Engine.reloaded_rounded acting hflight answer).load?
  refine .answers (.reloaded hflight) ?_ htallied.loads htallied.loading ?_
  · rw [fetches_after]
    change c.fetches + ((c.engine.reloaded acting answer).fetches + 0) = c.fetches
    rw [htallied.fetches]
    have := hsound.fetches
    change c.fetches + (c.engine.fetches + 0) = c.fetches
    omega
  · change c.unanswered.Perm
      (load :: (c.loads ++ (c.engine.reloaded acting answer).flight.load?.toList))
    unfold unanswered
    rw [hload, hflight]
    exact List.perm_append_comm.trans (by rw [Option.toList_none, List.append_nil]; rfl)

omit hlisten in
theorem counts_loaded {load : Nat} (hload : load ∈ c.loads) (answer : Except Failure Categories) :
    Counts c (.turn (.loaded load answer)) (c.after acting (.turn (.loaded load answer))) := by
  have hengine : c.engine.turn acting (.loaded load answer) = c.engine.withLoad load answer :=
    Engine.turn_loaded c.engine load answer
  refine .answers .loaded ?_ ?_ ?_ ?_
  · rw [fetches_after]
    change c.fetches + ((c.engine.turn acting (.loaded load answer)).fetches + 0) = c.fetches
    rw [hengine]
    have := hsound.fetches
    change c.fetches + (c.engine.fetches + 0) = c.fetches
    omega
  · change (c.engine.turn acting (.loaded load answer)).loads = _
    rw [hengine]
    rfl
  · change (c.engine.turn acting (.loaded load answer)).loading = _
    rw [hengine]
    rfl
  · change (c.loads ++ _).Perm (load :: (c.loads.erase load ++
      (c.engine.turn acting (.loaded load answer)).flight.load?.toList))
    rw [hengine]
    exact (List.perm_cons_erase hload).append_right _

/-- Each event starts one load at most, or takes the answer of one. -/
theorem counts_after (hready : c.Ready ev) : Counts c ev (c.after acting ev) := by
  cases ev with
  | call call => exact counts_call hsound hlisten call
  | wait seconds =>
    have hskips : c.engine.Skips (c.engine.after acting (.wait seconds)) :=
      (Engine.Skips.refl c.engine).of_eq rfl rfl rfl rfl
    exact .of_skips hsound hskips (fun _ _ h => nomatch h) rfl rfl
  | turn t =>
    cases t with
    | quietOver =>
      have hquiet : Engine.Skips c.engine { c.engine with quiet := c.engine.quiet.cancel } :=
        (Engine.Skips.refl c.engine).of_eq rfl rfl rfl rfl
      exact .of_skips hsound hquiet.quietOver (fun _ _ h => nomatch h) rfl rfl
    | shownOver =>
      have hshown : Engine.Skips c.engine { c.engine with shown := c.engine.shown.cancel } :=
        (Engine.Skips.refl c.engine).of_eq rfl rfl rfl rfl
      exact .of_skips hsound (hshown.shownOver hlisten) (fun _ _ h => nomatch h) rfl rfl
    | takeOff =>
      have hskips := Engine.takeOff_skips hlisten hready
      exact .of_skips hsound hskips (fun _ _ h => nomatch h) rfl rfl
    | updated answer =>
      obtain ⟨batch, hflight⟩ := hready
      exact counts_updated hsound hlisten hflight answer
    | reloaded answer =>
      obtain ⟨batch, rows, load, hflight⟩ := hready
      exact counts_reloaded hsound hlisten hflight answer
    | loaded load answer => exact counts_loaded hsound hready answer

end

/-! ## The numbers of loads -/

/-- The engine counts the loads as the store does, and shows that it is loading while the newest of
them is not answered. -/
structure Numbered (c : Course ω) : Prop where
  counted : c.engine.loads = c.fetches
  distinct : c.unanswered.Nodup
  started : ∀ load ∈ c.unanswered, 1 ≤ load ∧ load ≤ c.fetches
  loading : c.engine.loading = true ↔ c.fetches ∈ c.unanswered

theorem Counts.numbered (h : Counts c ev c') (hc : c.Numbered) : c'.Numbered := by
  cases h with
  | still _ hfetches hloads hloading hunanswered =>
    refine ⟨hloads.trans (hc.counted.trans hfetches.symm), ?_, ?_, ?_⟩
    · rw [hunanswered]
      exact hc.distinct
    · rw [hunanswered, hfetches]
      exact hc.started
    · rw [hunanswered, hfetches, hloading]
      exact hc.loading
  | starts _ hfetches hloads hloading hperm =>
    rw [hc.counted] at hperm
    have hnew : c.fetches + 1 ∉ c.unanswered := by
      intro hmem
      have := (hc.started _ hmem).2
      omega
    refine ⟨by rw [hloads, hc.counted, hfetches], hperm.nodup_iff.2 ?_, ?_, ?_⟩
    · exact List.nodup_cons.2 ⟨hnew, hc.distinct⟩
    · intro load hload
      rw [hfetches]
      rcases List.mem_cons.1 (hperm.mem_iff.1 hload) with rfl | hload
      · omega
      · have := hc.started load hload
        omega
    · rw [hfetches, hperm.mem_iff]
      simp [hloading]
  | @answers load answer _ hfetches hloads hloading hperm =>
    have hnodup := List.nodup_cons.1 (hperm.nodup_iff.1 hc.distinct)
    refine ⟨hloads.trans (hc.counted.trans hfetches.symm), hnodup.2, ?_, ?_⟩
    · intro load hload
      rw [hfetches]
      exact hc.started load (hperm.mem_iff.2 (List.mem_cons_of_mem _ hload))
    · rw [hfetches, hloading, hc.counted]
      split
      · -- the newest load is the one that is answered
        rename_i hnewest
        subst hnewest
        simpa using hnodup.1
      · rename_i hother
        rw [hc.loading, hperm.mem_iff, List.mem_cons]
        simp [Ne.symm hother]

theorem Reachable.numbered {events : Course ω → Event ω → Prop}
    (h : c.Reachable events (Listening admitted)) : c.Numbered := by
  obtain ⟨metas, rules, quietPeriod, shownFor, hleads⟩ := h
  induction hleads with
  | refl =>
    exact ⟨rfl, List.nodup_nil, nofun, by simp [start, Engine.new, unanswered, Flight.load?]⟩
  | step hbefore hlisten hready _ ih =>
    have hsound := hbefore.sound (fun _ => id) (sound_start metas rules quietPeriod shownFor)
    exact (counts_after hsound hlisten hready).numbered ih

/-! ## Which answers count -/

theorem Answers.mem {load : Nat} {answer : Except Failure Categories}
    (h : c.Answers load answer ev) (hready : c.Ready ev) : load ∈ c.unanswered := by
  cases h with
  | loaded => exact List.mem_append_left _ hready
  | reloaded hflight =>
    refine List.mem_append_right _ ?_
    rw [hflight]
    exact List.mem_singleton.2 rfl

theorem Answers.unique {load load' : Nat} {answer answer' : Except Failure Categories}
    (h : c.Answers load answer ev) (h' : c.Answers load' answer' ev) :
    load = load' ∧ answer = answer' := by
  cases h with
  | loaded =>
    cases h'
    exact ⟨rfl, rfl⟩
  | reloaded hflight =>
    cases h' with
    | reloaded hflight' =>
      cases hflight.symm.trans hflight'
      exact ⟨rfl, rfl⟩

/-- No load was started after this one, and the engine is open. -/
def Newest (c : Course ω) (load : Nat) : Prop := load = c.fetches ∧ c.engine.closed = false

/-- The event brings what the newest load has found. -/
def Installs (c : Course ω) (load : Nat) (ev : Event ω) : Prop :=
  c.Newest load ∧ ∃ categories, c.Answers load (.ok categories) ev

/-- A load that is answered is never answered again. -/
def Over (c : Course ω) (load : Nat) : Prop := load ∉ c.unanswered ∧ load ≤ c.fetches

theorem Counts.over {load : Nat} (h : Counts c ev c') (hc : c.Numbered) (hover : c.Over load) :
    c'.Over load := by
  cases h with
  | still _ hfetches _ _ hunanswered =>
    unfold Over
    rw [hunanswered, hfetches]
    exact hover
  | starts _ hfetches _ _ hperm =>
    -- the load that starts has a number of its own
    refine ⟨?_, by have := hover.2; omega⟩
    rw [hperm.mem_iff, hc.counted]
    intro hmem
    rcases List.mem_cons.1 hmem with hnew | hmem
    · have := hover.2
      omega
    · exact hover.1 hmem
  | answers _ hfetches _ _ hperm =>
    exact ⟨fun hmem => hover.1 (hperm.mem_iff.2 (List.mem_cons_of_mem _ hmem)), hfetches ▸ hover.2⟩

theorem Counts.over_of_answers {load : Nat} {answer : Except Failure Categories}
    (h : Counts c ev c') (hc : c.Numbered) (hready : c.Ready ev)
    (hanswers : c.Answers load answer ev) : c'.Over load := by
  have hstarted := hc.started load (hanswers.mem hready)
  cases h with
  | still hnone => exact (hnone load answer hanswers).elim
  | starts hnone => exact (hnone load answer hanswers).elim
  | answers hanswers' hfetches _ _ hperm =>
    obtain ⟨rfl, -⟩ := hanswers.unique hanswers'
    exact ⟨(List.nodup_cons.1 (hperm.nodup_iff.1 hc.distinct)).1, hfetches ▸ hstarted.2⟩

theorem Leads.over {events : Course ω → Event ω → Prop} {load : Nat}
    (h : c.Leads events (Listening admitted) c') (hreach : c.Reachable events (Listening admitted))
    (hover : c.Over load) : c'.Over load := by
  induction h with
  | refl => exact hover
  | step hsteps hlisten hready _ ih =>
    have hreach' := hreach.trans hsteps
    exact (counts_after hreach'.sound hlisten hready).over hreach'.numbered ih

/-- What an event does, if the newest load wins. -/
structure NewestWins (c : Course ω) (ev : Event ω) (c' : Course ω) : Prop where
  /-- A load that is started is the newest from then on. -/
  starts : c'.fetches ≠ c.fetches →
    c'.fetches = c.fetches + 1 ∧ c'.unanswered.Perm (c'.fetches :: c.unanswered)
  /-- What the newest load finds takes the place of the catalog. -/
  installs : ∀ load categories, c.Answers load (.ok categories) ev → c.Newest load →
    c'.engine.catalog = ⟨categories⟩
  /-- Other answers do not. The rows that a save returned may be put into the present catalog. -/
  passes : ∀ load answer, c.Answers load answer ev → ¬ c.Installs load ev →
    c'.engine.catalog = c.engine.catalog ∨ ∃ batch rows, ev = .turn (.reloaded answer) ∧
      c.engine.flight = .reloading batch rows load ∧
      c'.engine.catalog = c.engine.catalog.withUpdates rows
  /-- Where no load is answered, the catalog stays. -/
  stays : (∀ load answer, ¬ c.Answers load answer ev) → c'.engine.catalog = c.engine.catalog
  /-- Catalogs are installed in the order in which their loads were started. -/
  ordered : ∀ load, c.Installs load ev →
    ∀ c'', c'.Leads (fun _ _ => True) (Listening fun _ _ => True) c'' →
      ∀ ev' load', c''.Ready ev' → c''.Installs load' ev' → load < load'
  /-- One who asked for a catalog is told of a failure if their own load is the newest, and is given
  the present catalog otherwise. -/
  refreshes : ∀ load answer, ev = .turn (.loaded load answer) →
    (∀ f, answer = .error f → f.isFetch = true) →
      (∀ f, c.engine.refreshed load answer = .error f ↔ answer = .error f ∧ c.Newest load) ∧
        ∀ catalog, c.engine.refreshed load answer = .ok catalog → catalog = c'.engine.catalog

section

variable (hlisten : Listening admitted acting)
include hlisten

theorem catalog_of_newest (hcounted : c.engine.loads = c.fetches) {load : Nat}
    {categories : Categories} (hanswers : c.Answers load (.ok categories) ev)
    (hnewest : c.Newest load) : (c.after acting ev).engine.catalog = ⟨categories⟩ := by
  obtain ⟨hload, hopen⟩ := hnewest
  have hcurrent : c.engine.outdated load = false := by
    simp [Engine.outdated, hload, hcounted, hopen]
  have hloaded : c.engine.loadedCatalog load (.ok categories) = ⟨categories⟩ := by
    simp [Engine.loadedCatalog, hcurrent]
  cases hanswers with
  | loaded =>
    change (c.engine.turn acting (.loaded load (.ok categories))).catalog = _
    rw [Engine.turn_loaded]
    exact hloaded
  | reloaded hflight =>
    have hinstalls : c.engine.installs load (.ok categories) = true := by
      simp [Engine.installs, hcurrent]
    have hanswer : ∀ f, (.ok categories : Except Failure Categories) = .error f →
        f.isFetch = true := fun f h => by cases h
    change (c.engine.reloaded acting (.ok categories)).catalog = _
    rw [Engine.reloaded_catalog hlisten hflight hopen hanswer, hinstalls, if_pos rfl]
    exact hloaded

theorem catalog_of_not_installs (hcounted : c.engine.loads = c.fetches) {load : Nat}
    {answer : Except Failure Categories} (hanswers : c.Answers load answer ev)
    (hinstalls : ¬ c.Installs load ev) :
    (c.after acting ev).engine.catalog = c.engine.catalog ∨ ∃ batch rows,
      ev = .turn (.reloaded answer) ∧ c.engine.flight = .reloading batch rows load ∧
        (c.after acting ev).engine.catalog = c.engine.catalog.withUpdates rows := by
  cases (Engine.shelves_after hlisten c.engine ev).catalog with
  | stays hstays => exact .inl hstays
  | loaded hev _ hopen =>
    subst hev
    cases hanswers
    exact (hinstalls ⟨⟨hcounted, hopen⟩, _, .loaded⟩).elim
  | reloaded hflight hev _ hopen =>
    subst hev
    obtain ⟨rfl, -⟩ := hanswers.unique (.reloaded hflight)
    exact (hinstalls ⟨⟨hcounted, hopen⟩, _, .reloaded hflight⟩).elim
  | patched hflight hev _ _ _ hpatched =>
    subst hev
    obtain ⟨rfl, rfl⟩ := hanswers.unique (.reloaded hflight)
    exact .inr ⟨_, _, rfl, hflight, hpatched⟩

theorem catalog_of_no_answer (hnone : ∀ load answer, ¬ c.Answers load answer ev) :
    (c.after acting ev).engine.catalog = c.engine.catalog := by
  cases (Engine.shelves_after hlisten c.engine ev).catalog with
  | stays hstays => exact hstays
  | loaded hev =>
    subst hev
    exact (hnone _ _ .loaded).elim
  | reloaded hflight hev =>
    subst hev
    exact (hnone _ _ (.reloaded hflight)).elim
  | patched hflight hev =>
    subst hev
    exact (hnone _ _ (.reloaded hflight)).elim

end

theorem refreshed_error_iff (hcounted : c.engine.loads = c.fetches) {load : Nat}
    {answer : Except Failure Categories} (hanswer : ∀ f, answer = .error f → f.isFetch = true)
    (f : Failure) :
    c.engine.refreshed load answer = .error f ↔ answer = .error f ∧ c.Newest load := by
  have houtdated : c.engine.outdated load = false ↔ c.Newest load := by
    simp [Engine.outdated, Newest, hcounted]
  unfold Engine.refreshed
  rw [Engine.finishLoad_eq, ← houtdated]
  cases answer with
  | ok categories => simp [Except.map]
  | error f' =>
    dsimp only
    rw [hanswer f' rfl]
    cases c.engine.outdated load <;> simp [Except.map]

theorem catalog_of_refreshed {load : Nat} {answer : Except Failure Categories} {catalog : Catalog}
    (h : c.engine.refreshed load answer = .ok catalog) :
    catalog = (c.after acting (.turn (.loaded load answer))).engine.catalog := by
  unfold Engine.refreshed at h
  cases hfinish : (c.engine.finishLoad load answer).2 with
  | error f =>
    rw [hfinish] at h
    cases h
  | ok installed =>
    rw [hfinish] at h
    cases h
    rfl

/-- Loads are numbered as they start, and the engine shows that it is loading just while the newest
is not answered. The newest load wins, whatever loads overlap, and in whichever order they are
answered: an answer takes the place of the catalog if and only if it is a success, no load was
started after its own, and the engine is open. So catalogs are installed in the order in which their
loads were started, and one who asked for a catalog is told of a failure if and only if their own
load fails while it is the newest of an open engine. -/
theorem newest_load_wins {c : Course ω}
    (h : c.Reachable (fun _ _ => True) (Listening fun _ _ => True)) :
    c.Numbered ∧ ∀ acting, Listening (fun _ _ => True) acting → ∀ ev, c.Ready ev →
      NewestWins c ev (c.after acting ev) := by
  have hnumbered := h.numbered
  refine ⟨hnumbered, fun acting hlisten ev hready => ?_⟩
  have hcounts := counts_after h.sound hlisten hready
  constructor
  case starts =>
    intro hstarts
    cases hcounts with
    | still _ hfetches => exact (hstarts hfetches).elim
    | answers _ hfetches => exact (hstarts hfetches).elim
    | starts _ hfetches _ _ hperm =>
      rw [hnumbered.counted, ← hfetches] at hperm
      exact ⟨hfetches, hperm⟩
  case installs => exact fun _ _ => catalog_of_newest hlisten hnumbered.counted
  case passes => exact fun _ _ => catalog_of_not_installs hlisten hnumbered.counted
  case stays => exact catalog_of_no_answer hlisten
  case ordered =>
    rintro load ⟨-, categories, hanswers⟩ c'' hleads ev' load' hready' ⟨⟨rfl, -⟩, _, hanswers'⟩
    have hreach' : (c.after acting ev).Reachable (fun _ _ => True) (Listening fun _ _ => True) :=
      h.trans (Leads.refl.step hlisten hready trivial)
    have hover := hleads.over hreach' (hcounts.over_of_answers hnumbered hready hanswers)
    -- what is over by now is not what is answered now
    have hne : load ≠ c''.fetches := fun heq => hover.1 (heq ▸ hanswers'.mem hready')
    exact Nat.lt_of_le_of_ne hover.2 hne
  case refreshes =>
    rintro load answer rfl hanswer
    exact ⟨refreshed_error_iff hnumbered.counted hanswer, fun _ => catalog_of_refreshed⟩

/-- Of two loads at the same time the second is answered first and brings the catalog; the failure
of the first is passed over when it comes. -/
theorem overtaken_load_passes :
    let c : Course Unit := (start [] [] 1 1).run .silent [.call .refresh, .call .refresh]
    let c' := c.after .silent (.turn (.loaded 2 (.ok [("general", [])])))
    let late : Except Failure Categories := .error (.fetch "no answer" none none)
    c.engine.loading = true ∧ c'.engine.catalog = ⟨[("general", [])]⟩ ∧
      c'.engine.loading = false ∧ c'.engine.refreshed 1 late = .ok c'.engine.catalog ∧
      (c'.after .silent (.turn (.loaded 1 late))).engine.catalog = c'.engine.catalog := by
  intro c c' late
  have haloof : Listening (fun _ _ => True) (Engine.silent : Engine.Acting Unit) :=
    .aloof aloof_silent
  have h : c.Reachable (fun _ _ => True) (Listening fun _ _ => True) :=
    ⟨[], [], 1, 1, leads_run haloof (by decide) fun _ _ _ => trivial⟩
  have hready : c.Ready (.turn (.loaded 2 (.ok [("general", [])]))) := by decide
  have h' : c'.Reachable (fun _ _ => True) (Listening fun _ _ => True) :=
    h.trans (Leads.refl.step haloof hready trivial)
  have hwins := (newest_load_wins h).2 .silent haloof _ hready
  have hlate := (newest_load_wins h').2 .silent haloof (.turn (.loaded 1 late)) (by decide)
  have hpassed : ¬ c'.Installs 1 (.turn (.loaded 1 late)) := fun hinstalls => nomatch hinstalls.1.1
  refine ⟨by decide, hwins.installs 2 _ .loaded ⟨by decide, by decide⟩, by decide, rfl, ?_⟩
  rcases hlate.passes 1 late .loaded hpassed with hkept | ⟨_, _, hev, -⟩
  · exact hkept
  · cases hev

end Course

end DeferredSave
