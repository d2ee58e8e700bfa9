import DeferredSave.Panel.Service
import DeferredSave.Proofs.Course.Frame
import DeferredSave.Proofs.Edit.Batch
import DeferredSave.Proofs.Store.Wire
import Mathlib.Data.List.Induction

/-!
# Dropping given edits

Edits are dropped for keys that somebody names. Those among the keys that have an edit are found
first, and then their edits are dropped one after the other. If they are all different, just these
edits are gone, and an engine that is left without edits comes to rest. If one of them was given
twice its turn comes again when its edit is gone, and that ends it all with an error: the keys after
it keep their edits, and the engine goes on waiting even if no edit is left
(`Engine.drops_given_iff`).
-/

namespace DeferredSave

namespace EditBuffer

variable {b : EditBuffer}

/-- The buffer without the edits of some keys. -/
def without (b : EditBuffer) (keys : List String) : EditBuffer :=
  { b with edits := b.edits.filter (·.key ∉ keys) }

/-- Those of some keys that have an edit, as often as they are given. -/
def found (b : EditBuffer) (keys : List String) : List String := keys.filter b.contains

@[simp] theorem without_nil (b : EditBuffer) : b.without [] = b := by
  unfold without
  rw [List.filter_eq_self.2 (by simp)]

theorem without_erase (b : EditBuffer) (key : String) (keys : List String) :
    (b.erase key).without keys = b.without (key :: keys) := by
  simp only [without, erase, List.filter_filter, List.mem_cons, not_or]
  congr 2
  funext e
  simp [Bool.and_comm]

/-- Keys that have no edit make no difference. -/
theorem without_found (b : EditBuffer) (keys : List String) :
    b.without (b.found keys) = b.without keys := by
  unfold without
  congr 1
  refine List.filter_congr fun e he => ?_
  have hcontains : b.contains e.key = true := by
    simpa [contains, find?] using ⟨e, he, rfl⟩
  simp [found, hcontains]

theorem contains_erase (b : EditBuffer) (key other : String) :
    (b.erase key).contains other = (decide (other ≠ key) && b.contains other) := by
  by_cases h : other = key
  · rw [h, contains, find?_erase_self]
    simp
  · rw [contains, find?_erase_of_ne h]
    simp [contains, h]

/-! ## Keys one after the other -/

/-- Different keys that all have edits are dropped, and then what is left is done. -/
theorem eraseEach_append {keys : List String} (rest : List String) (hnodup : keys.Nodup)
    (hfound : ∀ key ∈ keys, b.contains key = true) :
    b.eraseEach (keys ++ rest) = (b.without keys).eraseEach rest := by
  induction keys generalizing b with
  | nil => simp
  | cons key keys ih =>
    obtain ⟨hnew, hnodup⟩ := List.nodup_cons.1 hnodup
    have hothers : ∀ other ∈ keys, (b.erase key).contains other = true := by
      intro other hother
      have hne : other ≠ key := fun heq => hnew (heq ▸ hother)
      rw [contains_erase, hfound other (List.mem_cons_of_mem _ hother)]
      simp [hne]
    rw [List.cons_append, eraseEach, if_pos (hfound key List.mem_cons_self), ih hnodup hothers,
      without_erase]

theorem contains_without_of_mem {key : String} {keys : List String} (h : key ∈ keys) :
    (b.without keys).contains key = false := by
  have hnone : (b.edits.filter (·.key ∉ keys)).find? (·.key = key) = none := by
    rw [List.find?_eq_none]
    intro e he hkey
    have hnot : e.key ∉ keys := by simpa using (List.mem_filter.1 he).2
    exact hnot (of_decide_eq_true hkey ▸ h)
  rw [contains, find?, without, hnone]
  rfl

theorem discard_some (b : EditBuffer) (keys : List String) :
    b.discard (some keys) =
      match b.eraseEach (b.found keys) with
      | (b', none) => (b', .ok (b.found keys))
      | (b', some missing) => (b', .error missing) := rfl

/-- Different keys are dropped and listed. -/
theorem discard_of_nodup {keys : List String} (h : (b.found keys).Nodup) :
    b.discard (some keys) = (b.without keys, .ok (b.found keys)) := by
  have hall := eraseEach_append [] h fun key hkey => (List.mem_filter.1 hkey).2
  rw [List.append_nil, without_found] at hall
  rw [discard_some, hall]
  rfl

/-- A key whose turn comes again ends it all. -/
theorem discard_of_repeated {keys front rest : List String} {key : String}
    (hfound : b.found keys = front ++ key :: rest) (hnodup : front.Nodup) (hkey : key ∈ front) :
    b.discard (some keys) = (b.without front, .error ⟨key⟩) := by
  have hall : ∀ other ∈ front, b.contains other = true := by
    intro other hother
    have hmem : other ∈ b.found keys := hfound ▸ List.mem_append_left _ hother
    exact (List.mem_filter.1 hmem).2
  rw [discard_some, hfound, eraseEach_append (key :: rest) hnodup hall, eraseEach,
    if_neg (by simp [contains_without_of_mem hkey])]

end EditBuffer

/-- In a list with repetitions there is a first entry that repeats an earlier one. -/
theorem exists_first_repeated {keys : List String} (h : ¬ keys.Nodup) :
    ∃ front key rest, keys = front ++ key :: rest ∧ front.Nodup ∧ key ∈ front := by
  induction keys using List.reverseRecOn with
  | nil => exact absurd List.nodup_nil h
  | append_singleton keys last ih =>
    by_cases hkeys : keys.Nodup
    · -- then it is the last entry
      refine ⟨keys, last, [], rfl, hkeys, ?_⟩
      refine Classical.byContradiction fun hnot => h ?_
      exact List.nodup_append.2 ⟨hkeys, by simp, fun a ha b hb heq =>
        hnot (List.mem_singleton.1 hb ▸ heq ▸ ha)⟩
    · obtain ⟨front, key, rest, rfl, hnodup, hmem⟩ := ih hkeys
      exact ⟨front, key, rest ++ [last], by simp, hnodup, hmem⟩

theorem eraseDups_of_nodup {keys : List String} (h : keys.Nodup) : keys.eraseDups = keys := by
  induction keys with
  | nil => rfl
  | cons key keys ih =>
    obtain ⟨hnew, hnodup⟩ := List.nodup_cons.1 h
    have hothers : keys.filter (fun other => !other == key) = keys := by
      refine List.filter_eq_self.2 fun other hother => ?_
      have hne : other ≠ key := fun heq => hnew (heq ▸ hother)
      simpa using hne
    rw [List.eraseDups_cons, hothers, ih hnodup]

/-- What dropping the edits of given keys is to do to a buffer: the edits of these keys are gone and
all others are as they were, and each key whose edit is gone is listed once, in the order in which
the keys were given first. -/
structure EditBuffer.DropsGiven (b : EditBuffer) (keys : List String) : Prop where
  left : (b.discard (some keys)).1 = b.without keys
  listed : (b.discard (some keys)).2 = .ok (b.found keys).eraseDups

theorem EditBuffer.dropsGiven_iff (b : EditBuffer) (keys : List String) :
    b.DropsGiven keys ↔ (b.found keys).Nodup := by
  constructor
  · intro h
    refine Classical.byContradiction fun hnot => ?_
    obtain ⟨front, key, rest, hfound, hnodup, hkey⟩ := exists_first_repeated hnot
    have hlisted := h.listed
    rw [discard_of_repeated hfound hnodup hkey] at hlisted
    cases hlisted
  · intro h
    have hdiscard := discard_of_nodup h
    exact ⟨by rw [hdiscard], by rw [hdiscard, eraseDups_of_nodup h]⟩

namespace Engine

variable {ω : Type} {acting : Acting ω} {g : Engine ω} {keys? : Option (List String)}
  {edits : EditBuffer}

/-! ## An engine whose edits are dropped -/

/-- If the buffer cannot drop them all, the engine goes on as before with what is left. -/
theorem discard_of_error (acting : Acting ω) {missing : MissingKey}
    (h : g.edits.discard keys? = (edits, .error missing)) :
    g.discard acting keys? = ({ g with edits }, .error (.missingKey missing)) := by
  unfold discard
  rw [h]

theorem discard_of_left (acting : Acting ω) {dropped : List String}
    (h : g.edits.discard keys? = (edits, .ok dropped))
    (hleft : edits.isEmpty = false) :
    g.discard acting keys? = ({ g with edits }, .ok dropped) := by
  unfold discard
  rw [h]
  simp [hleft]

/-- Without edits the engine waits for nothing, and shows that unless there is a flight. -/
theorem discard_of_isEmpty (acting : Acting ω) {dropped : List String}
    (h : g.edits.discard keys? = (edits, .ok dropped)) (hempty : edits.isEmpty = true) :
    (((g.flying || !g.showsEdits) = true ∧
        g.discard acting keys? = ({ g with edits, quiet := g.quiet.cancel }, .ok dropped)) ∨
      ∃ g', Told acting .idle ({ g with edits, quiet := g.quiet.cancel }.shows .idle) g' ∧
        g.discard acting keys? = (g', .ok dropped)) := by
  unfold discard
  rw [h]
  dsimp only
  rw [if_neg (by simp [hempty])]
  split
  · rename_i hstays
    exact .inl ⟨hstays, rfl⟩
  · rename_i hshows
    rw [Bool.or_eq_true, not_or] at hshows
    have hedits : g.showsEdits = true :=
      Bool.of_not_eq_false fun hf => hshows.2 (congrArg not hf)
    obtain ⟨g', htold, hfire⟩ :=
      fire_of_canBecome (g := { g with edits, quiet := g.quiet.cancel }) (e := .idle) acting
        (canBecome_idle hedits)
    rw [hfire]
    exact .inr ⟨g', htold, rfl⟩

/-- A request to drop the edits of given keys does just that. -/
theorem serve_discard (acting : Acting ω) (g : Engine ω) (keys : List String) :
    Panel.discard acting g (some (Panel.DiscardRequest.toJson ⟨some keys⟩)) =
      match g.discard acting (some keys) with
      | (g', .ok _) => (g', .saveState 200 g')
      | (g', .error _) => (g', .broken) := by
  have hlist : Reader.list Reader.text (.array (keys.map Json.text)) = .ok keys :=
    Reader.list_toJson fun _ _ => rfl
  have hread : Panel.DiscardRequest.ofEntries [("keys", .array (keys.map .text))] =
      .ok ⟨some keys⟩ := by
    change Panel.DiscardRequest.mk <$>
      (((Reader.list Reader.text (.array (keys.map Json.text))).map some).below
        (.field "keys")) = _
    rw [hlist]
    rfl
  simp only [Panel.discard, Panel.readOptionalBody, Panel.readBody, Panel.DiscardRequest.toJson,
    hread]
  rfl

/-- What dropping the edits of given keys is to do to an engine: the same as to its buffer, and if
no edit is left, the quiet period is stopped, and the indicator is idle if it showed edits that no
flight was under way for. Who asked for it is told the state of saving. -/
structure DropsGiven (acting : Acting ω) (g : Engine ω) (keys : List String) : Prop where
  left : (g.discard acting (some keys)).1.edits = g.edits.without keys
  listed : (g.discard acting (some keys)).2 = .ok (g.edits.found keys).eraseDups
  quiet : (g.discard acting (some keys)).1.edits.isEmpty = true →
    (g.discard acting (some keys)).1.quiet.armed = false
  idle : (g.discard acting (some keys)).1.edits.isEmpty = true → g.flight = .none →
    g.status = .pending ∨ g.status = .error → (g.discard acting (some keys)).1.status = .idle
  told : Panel.discard acting g (some (Panel.DiscardRequest.toJson ⟨some keys⟩)) =
    ((g.discard acting (some keys)).1, .saveState 200 (g.discard acting (some keys)).1)

theorem dropsGiven_of_nodup (haloof : Aloof acting) {keys : List String}
    (h : (g.edits.found keys).Nodup) : g.DropsGiven acting keys := by
  have hdiscard := EditBuffer.discard_of_nodup h
  have hlisted := eraseDups_of_nodup h
  have htold := serve_discard acting g keys
  cases hempty : (g.edits.without keys).isEmpty with
  | false =>
    have heq := discard_of_left acting hdiscard hempty
    rw [heq] at htold
    constructor <;> rw [heq]
    · rw [hlisted]
    · exact fun hsome => nomatch hempty.symm.trans hsome
    · exact fun hsome => nomatch hempty.symm.trans hsome
    · exact htold
  | true =>
    obtain ⟨hstays, heq⟩ | ⟨g', htelling, heq⟩ :=
      discard_of_isEmpty acting hdiscard hempty
    · rw [heq] at htold
      constructor <;> rw [heq]
      · rw [hlisted]
      · exact fun _ => rfl
      · intro _ hnone hshows
        simp [flying, hnone, showsEdits_iff.2 hshows] at hstays
      · exact htold
    · obtain ⟨notices, outbox, rfl, -⟩ := htelling.of_aloof haloof
      rw [heq] at htold
      constructor <;> rw [heq]
      · rfl
      · rw [hlisted]
      · exact fun _ => rfl
      · exact fun _ _ _ => rfl
      · exact htold

/-- The edits of given keys are dropped as they are to be exactly if no key with an edit is given
twice. Otherwise the edits are dropped up to the first key that comes again; that key is reported
as missing, and nothing else of the engine changes. -/
theorem drops_given_iff (haloof : Aloof acting) (g : Engine ω) (keys : List String) :
    (g.edits.DropsGiven keys ↔ (g.edits.found keys).Nodup) ∧
      (g.DropsGiven acting keys ↔ (g.edits.found keys).Nodup) ∧
      ∀ front key rest, g.edits.found keys = front ++ key :: rest → front.Nodup → key ∈ front →
        g.edits.discard (some keys) = (g.edits.without front, .error ⟨key⟩) ∧
          g.discard acting (some keys) =
            ({ g with edits := g.edits.without front }, .error (.missingKey ⟨key⟩)) := by
  have hrepeated : ∀ front key rest, g.edits.found keys = front ++ key :: rest → front.Nodup →
      key ∈ front → g.edits.discard (some keys) = (g.edits.without front, .error ⟨key⟩) ∧
        g.discard acting (some keys) =
          ({ g with edits := g.edits.without front }, .error (.missingKey ⟨key⟩)) := by
    intro front key rest hfound hnodup hkey
    have hdiscard := EditBuffer.discard_of_repeated hfound hnodup hkey
    exact ⟨hdiscard, discard_of_error acting hdiscard⟩
  refine ⟨g.edits.dropsGiven_iff keys, ⟨fun h => ?_, dropsGiven_of_nodup haloof⟩, hrepeated⟩
  refine Classical.byContradiction fun hnot => ?_
  obtain ⟨front, key, rest, hfound, hnodup, hkey⟩ := exists_first_repeated hnot
  have hlisted := h.listed
  rw [(hrepeated front key rest hfound hnodup hkey).2] at hlisted
  cases hlisted

/-- An engine in which some keys have been edited one after the other. -/
def withEditsOf (keys : List String) : Engine Unit :=
  keys.foldl (fun g key => (g.change silent key "1").1) (.new [] [] 1 2)

/-- Keys without an edit may be given, and given twice, but not those with an edit. -/
theorem drops_given_once :
    (withEditsOf ["a", "b", "c"]).DropsGiven silent ["c", "x", "x", "a"] ∧
      ¬ (withEditsOf ["a", "b", "c"]).DropsGiven silent ["c", "a", "c"] := by
  obtain ⟨-, honce, -⟩ :=
    drops_given_iff aloof_silent (withEditsOf ["a", "b", "c"]) ["c", "x", "x", "a"]
  obtain ⟨-, htwice, -⟩ :=
    drops_given_iff aloof_silent (withEditsOf ["a", "b", "c"]) ["c", "a", "c"]
  exact ⟨honce.2 (by decide), fun h => absurd (htwice.1 h) (by decide)⟩

/-- A key is given twice: its edit is dropped and the key is then missing, the quiet period of an
engine that has no edits any more goes on, and the indicator still shows an edit. -/
theorem key_given_twice_is_missing :
    let g := withEditsOf ["a"]
    let dropped := (g.discard silent (some ["a", "a"])).1
    g.flight = .none ∧
      g.edits.discard (some ["a", "a"]) = (⟨[], 1⟩, .error ⟨"a"⟩) ∧
      (g.discard silent (some ["a", "a"])).2 = .error (.missingKey ⟨"a"⟩) ∧
      dropped.edits.isEmpty = true ∧ dropped.quiet.armed = true ∧ dropped.status = .pending ∧
      (Panel.discard silent g (some (Panel.DiscardRequest.toJson ⟨some ["a", "a"]⟩))).2 =
        .broken := by
  refine ⟨by decide, by decide, by decide, by decide, by decide, by decide, ?_⟩
  rw [serve_discard]
  rfl

end Engine

end DeferredSave
