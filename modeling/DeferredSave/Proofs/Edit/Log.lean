import DeferredSave.Proofs.Course.Dropping
import DeferredSave.Proofs.Edit.Tables
import Mathlib.Data.List.Forall2
import Mathlib.Data.List.Induction

/-!
# A buffer holds what its log leaves standing

A client of a buffer makes edits, takes batches, drops edits and reports that batches are stored.
Which of its edits still stand can be told from the log of these calls alone (`standing`): those
whose key was neither edited again nor dropped, and which no batch holds that has been stored since.
The buffer has just these edits in their order, held in two tables that always have the same keys,
and the revisions in the batches that it hands out count upwards (`buffer_holds_what_stands`).
-/

namespace DeferredSave

/-! ## The log -/

/-- A call of a client, which numbers the batches that it takes from zero on. -/
inductive EditCall where
  | set (key value : String)
  | snapshot
  | discard (keys? : Option (List String))
  /-- The batch with this number is stored. -/
  | stored (number : ℕ)
  /-- A batch that was taken from no buffer is stored. -/
  | storedOther (entries : List (String × String))
deriving DecidableEq, Repr

/-- An edit in a log, and how many batches had been taken before it. -/
structure LoggedEdit where
  key : String
  value : String
  before : ℕ
deriving DecidableEq, Repr

namespace EditCall

/-- How many batches the call takes. -/
def takes : EditCall → ℕ
  | snapshot => 1
  | _ => 0

/-- The edits that the call makes, where `taken` batches have been taken before it. -/
def makes (taken : ℕ) : EditCall → List LoggedEdit
  | set key value => [⟨key, value, taken⟩]
  | _ => []

/-- Whether the call ends an earlier edit that still stands, where `taken` batches have been taken
before the call. The batches that were taken after the edit hold it; a number that is not taken yet
is that of no batch. -/
def ends (taken : ℕ) (e : LoggedEdit) : EditCall → Bool
  | set key _ => key = e.key
  | snapshot => false
  | discard none => true
  | discard (some keys) => e.key ∈ keys
  | stored number => e.before ≤ number && number < taken
  | storedOther _ => false

end EditCall

/-- How many batches are taken in a log. -/
def batchesTaken : List EditCall → ℕ
  | [] => 0
  | c :: log => c.takes + batchesTaken log

/-- None of the calls, one after the other, ends the edit. -/
def lasts (e : LoggedEdit) : ℕ → List EditCall → Bool
  | _, [] => true
  | taken, c :: later => !c.ends taken e && lasts e (taken + c.takes) later

/-- The edits in a log that no later call in it ends, in the order in which they were made. Before
the log `taken` batches have been taken. -/
def standing : ℕ → List EditCall → List LoggedEdit
  | _, [] => []
  | taken, c :: later =>
    (c.makes taken).filter (lasts · (taken + c.takes) later) ++ standing (taken + c.takes) later

theorem batchesTaken_concat (log : List EditCall) (c : EditCall) :
    batchesTaken (log ++ [c]) = batchesTaken log + c.takes := by
  induction log with
  | nil => simp [batchesTaken]
  | cons d log ih => simp [batchesTaken, ih, Nat.add_assoc]

theorem lasts_concat (e : LoggedEdit) (taken : ℕ) (log : List EditCall) (c : EditCall) :
    lasts e taken (log ++ [c]) =
      (lasts e taken log && !c.ends (taken + batchesTaken log) e) := by
  induction log generalizing taken with
  | nil => simp [lasts, batchesTaken]
  | cons d log ih =>
    simp only [List.cons_append, lasts, ih, batchesTaken, Bool.and_assoc, Nat.add_assoc]

/-- One more call ends some of the edits that stand, and those that it makes come last. -/
theorem standing_concat (taken : ℕ) (log : List EditCall) (c : EditCall) :
    standing taken (log ++ [c]) =
      (standing taken log).filter (fun e => !c.ends (taken + batchesTaken log) e) ++
        c.makes (taken + batchesTaken log) := by
  induction log generalizing taken with
  | nil => simp [standing, lasts, batchesTaken]
  | cons d log ih =>
    simp only [List.cons_append, standing, lasts_concat, ih, List.filter_append, List.filter_filter,
      batchesTaken, Nat.add_assoc, List.append_assoc, Bool.and_comm]

/-! ## The client -/

/-- A client with what it edits and the batches that it has taken. -/
structure Client (σ : Type) where
  held : σ
  taken : List Batch
deriving DecidableEq

namespace Client

variable {σ : Type}

/-- The client after a call, given how calls change what it edits, and how a copy is taken of it. -/
def after (act : σ → BufferCall → σ) (copy? : σ → Option Batch) (c : Client σ) :
    EditCall → Client σ
  | .set key value => { c with held := act c.held (.set key value) }
  | .snapshot => { c with taken := c.taken ++ (copy? c.held).toList }
  | .discard keys? => { c with held := act c.held (.discard keys?) }
  | .stored number =>
    match c.taken[number]? with
    | some batch => { c with held := act c.held (.discardFlushed batch) }
    | none => c
  | .storedOther entries => { c with held := act c.held (.discardFlushed (.ofEntries entries)) }

/-- The client of a buffer after all calls of a log. -/
def ofBuffer (log : List EditCall) : Client EditBuffer :=
  log.foldl (after EditBuffer.after fun b => some b.snapshot) ⟨{}, []⟩

/-- The client of tables after all calls of a log. -/
def ofTables (log : List EditCall) : Client EditTables :=
  log.foldl (after EditTables.after fun t => t.snapshot.toOption) ⟨{}, []⟩

end Client

/-! ## What a call leaves in the buffer -/

/-- A sublist of different entries is told by its entries. -/
theorem eq_filter_of_sublist {α : Type} {p : α → Bool} {l' l : List α} (hsub : l'.Sublist l)
    (hnodup : l.Nodup) (h : ∀ a ∈ l, a ∈ l' ↔ p a = true) : l' = l.filter p := by
  induction hsub with
  | slnil => rfl
  | @cons l' l a hsub ih =>
    obtain ⟨hnew, hrest⟩ := List.nodup_cons.1 hnodup
    obtain ⟨ha, hl⟩ := List.forall_mem_cons.1 h
    -- the entry comes no second time, so it is not in the sublist
    have hgone : ¬ p a = true := fun hp => hnew (hsub.subset (ha.2 hp))
    rw [List.filter_cons_of_neg hgone]
    exact ih hrest hl
  | @cons_cons l' l a hsub ih =>
    obtain ⟨hnew, hrest⟩ := List.nodup_cons.1 hnodup
    obtain ⟨ha, hl⟩ := List.forall_mem_cons.1 h
    rw [List.filter_cons_of_pos (ha.1 List.mem_cons_self)]
    refine congrArg _ (ih hrest fun x hx => ?_)
    have hne : x ≠ a := fun heq => hnew (heq ▸ hx)
    rw [← hl x hx, List.mem_cons, or_iff_right hne]

namespace EditBuffer

variable {b : EditBuffer}

theorem edits_discard_none (h : b.keys.Nodup) : (b.discard none).1.edits = [] := by
  have hall : b.found b.keys = b.keys := by
    refine List.filter_eq_self.2 fun key hkey => ?_
    obtain ⟨e, he, rfl⟩ := List.mem_map.1 hkey
    simp [contains, find?_of_mem h he]
  -- all edits are dropped by their keys
  have hdiscard : b.discard none = b.discard (some b.keys) := by
    rw [discard_some, hall]
    rfl
  rw [hdiscard, discard_of_nodup (h.filter _)]
  refine List.filter_eq_nil_iff.2 fun e he => ?_
  have hkey : e.key ∈ b.keys := List.mem_map_of_mem he
  simpa using hkey

theorem edits_discard_some (b : EditBuffer) {keys : List String} (h : keys.Nodup) :
    (b.discard (some keys)).1.edits = b.edits.filter (·.key ∉ keys) := by
  rw [discard_of_nodup (h.filter _)]
  rfl

theorem edits_discardFlushed {batch : Batch} (h : b.Orderly) (hknows : b.Knows batch) :
    (b.discardFlushed batch).1.edits = b.edits.filter (¬ batch.Holds ·) := by
  refine eq_filter_of_sublist (b.discardFlushed_sublist batch).1 h.nodup.of_map fun e he => ?_
  rw [mem_discardFlushed h hknows, and_iff_right he, decide_eq_true_eq]

/-- No edit has the revision of a batch that was taken from no buffer. -/
theorem discardFlushed_ofEntries (h : b.Numbered) (entries : List (String × String)) :
    (b.discardFlushed (.ofEntries entries)).1 = b := by
  rw [fst_discardFlushed, dropFlushed_of_foreign]
  intro revision hrevision e he hsame
  obtain ⟨-, -, rfl⟩ := List.mem_map.1 hrevision
  exact absurd (h.positive e he) (by rw [hsame]; exact Int.lt_irrefl 0)

end EditBuffer

/-! ## Following the log -/

/-- The batch has one revision for each entry, and its revisions count upwards from one on, at most
up to the counter. -/
structure Batch.CountsUpTo (batch : Batch) (counter : Int) : Prop where
  paired : batch.revisions.length = batch.entries.length
  positive : ∀ revision ∈ batch.revisions, 0 < revision
  growing : batch.revisions.Pairwise (· < ·)
  bounded : ∀ revision ∈ batch.revisions, revision ≤ counter

theorem Batch.CountsUpTo.mono {batch : Batch} {counter counter' : Int}
    (h : batch.CountsUpTo counter) (hle : counter ≤ counter') : batch.CountsUpTo counter' where
  paired := h.paired
  positive := h.positive
  growing := h.growing
  bounded := fun revision hrevision => Int.le_trans (h.bounded revision hrevision) hle

theorem EditBuffer.Numbered.countsUpTo_snapshot {b : EditBuffer} (h : b.Numbered) :
    b.snapshot.CountsUpTo b.issued where
  paired := by simp [EditBuffer.snapshot, EditBuffer.items]
  positive := by
    intro revision hrevision
    obtain ⟨e, he, rfl⟩ := List.mem_map.1 hrevision
    exact h.positive e he
  growing := List.pairwise_map.2 h.growing
  bounded := by
    intro revision hrevision
    obtain ⟨e, he, rfl⟩ := List.mem_map.1 hrevision
    exact h.issued e he

/-- An edit in the buffer is the one in the log, and just the batches that were taken after it hold
it. -/
structure LoggedEdit.Is (taken : List Batch) (e : Edit) (l : LoggedEdit) : Prop where
  key : e.key = l.key
  value : e.value = l.value
  before : l.before ≤ taken.length
  holds : ∀ number batch, taken[number]? = some batch → (batch.Holds e ↔ l.before ≤ number)

/-- The batch that is taken now is one more that holds the edit. -/
theorem LoggedEdit.Is.append_snapshot {taken : List Batch} {e : Edit} {l : LoggedEdit}
    (h : LoggedEdit.Is taken e l) {b : EditBuffer} (he : e ∈ b.edits) :
    LoggedEdit.Is (taken ++ [b.snapshot]) e l where
  key := h.key
  value := h.value
  before := Nat.le_trans h.before (by simp)
  holds := by
    intro number batch hbatch
    rcases Nat.lt_or_ge number taken.length with hold | hnew
    · rw [List.getElem?_append_left hold] at hbatch
      exact h.holds number batch hbatch
    · rw [List.getElem?_append_right hnew] at hbatch
      have hlast : batch = b.snapshot := by
        simpa using (List.mem_of_getElem? hbatch)
      rw [hlast, EditBuffer.snapshot_holds]
      exact iff_of_true he (Nat.le_trans h.before hnew)

namespace Client

/-- The client of a buffer is where the log has brought it. -/
structure Follows (log : List EditCall) (c : Client EditBuffer) : Prop where
  numbered : c.held.Numbered
  count : c.taken.length = batchesTaken log
  knows : ∀ batch ∈ c.taken, c.held.Knows batch
  counted : ∀ batch ∈ c.taken, batch.CountsUpTo c.held.issued
  edits : List.Forall₂ (LoggedEdit.Is c.taken) c.held.edits (standing 0 log)

variable {log : List EditCall} {c : Client EditBuffer}

/-- A call that drops just the edits that it ends in the log. -/
theorem Follows.drop (h : Follows log c) (call : BufferCall) {logged : EditCall} (p : Edit → Bool)
    (htakes : logged.takes = 0) (hmakes : logged.makes (batchesTaken log) = [])
    (hissued : (c.held.after call).issued = c.held.issued)
    (hleft : (c.held.after call).edits = c.held.edits.filter p)
    (hends : ∀ e l, LoggedEdit.Is c.taken e l →
      (p e = true ↔ logged.ends c.taken.length l = false)) :
    Follows (log ++ [logged]) { c with held := c.held.after call } where
  numbered := h.numbered.after call
  count := by rw [batchesTaken_concat, htakes]; exact h.count
  knows := fun batch hbatch => (h.knows batch hbatch).after call
  counted := fun batch hbatch => hissued ▸ h.counted batch hbatch
  edits := by
    rw [standing_concat, Nat.zero_add, hmakes, List.append_nil, ← h.count]
    change List.Forall₂ _ (c.held.after call).edits _
    rw [hleft]
    refine List.rel_filter ?_ h.edits
    intro e l hel
    simpa using hends e l hel

theorem follows_nil : Follows [] ⟨{}, []⟩ where
  numbered := EditBuffer.numbered_empty
  count := rfl
  knows := nofun
  counted := nofun
  edits := List.Forall₂.nil

theorem Follows.set (h : Follows log c) (key value : String) :
    Follows (log ++ [.set key value]) { c with held := c.held.set key value } where
  numbered := h.numbered.after (.set key value)
  count := by rw [batchesTaken_concat]; exact h.count
  knows := fun batch hbatch => (h.knows batch hbatch).set key value
  counted := fun batch hbatch => (h.counted batch hbatch).mono (Int.le_add_one (Int.le_refl _))
  edits := by
    rw [standing_concat, Nat.zero_add, ← h.count]
    refine List.rel_append (List.rel_filter ?_ h.edits) (.cons ?_ .nil)
    · intro e l hel
      simp [EditCall.ends, hel.key, eq_comm (a := key)]
    · -- the batches that are there were taken before the edit
      refine ⟨rfl, rfl, Nat.le_refl _, fun number batch hbatch => ?_⟩
      have hbound : number < c.taken.length := (List.getElem?_eq_some_iff.1 hbatch).1
      refine iff_of_false (fun hholds => ?_) (Nat.not_le.2 hbound)
      have hissued := (h.knows batch (List.mem_of_getElem? hbatch)).issued _ hholds
      exact absurd hissued (Int.not_le.2 (Int.lt_succ _))

theorem Follows.snapshot (h : Follows log c) :
    Follows (log ++ [.snapshot]) { c with taken := c.taken ++ [c.held.snapshot] } where
  numbered := h.numbered
  count := by
    rw [batchesTaken_concat, ← h.count]
    exact List.length_append
  knows := by
    intro batch hbatch
    rcases List.mem_append.1 hbatch with hold | hnew
    · exact h.knows batch hold
    · rw [List.mem_singleton.1 hnew]
      exact h.numbered.knows_snapshot
  counted := by
    intro batch hbatch
    rcases List.mem_append.1 hbatch with hold | hnew
    · exact h.counted batch hold
    · rw [List.mem_singleton.1 hnew]
      exact h.numbered.countsUpTo_snapshot
  edits := by
    have hall : (standing 0 log).filter
        (fun l => !EditCall.snapshot.ends (0 + batchesTaken log) l) = standing 0 log :=
      List.filter_eq_self.2 fun _ _ => rfl
    rw [standing_concat, hall]
    change List.Forall₂ _ c.held.edits (standing 0 log ++ [])
    rw [List.append_nil]
    obtain ⟨hlength, hzip⟩ := List.forall₂_iff_zip.1 h.edits
    exact List.forall₂_iff_zip.2 ⟨hlength, fun hmem =>
      (hzip hmem).append_snapshot (List.of_mem_zip hmem).1⟩

theorem Follows.discard (h : Follows log c) {keys? : Option (List String)}
    (hdistinct : ∀ keys, keys? = some keys → keys.Nodup) :
    Follows (log ++ [.discard keys?]) { c with held := (c.held.discard keys?).1 } := by
  have hissued := (c.held.discard_sublist keys?).2
  cases keys? with
  | none =>
    refine h.drop (.discard none) (fun _ => false) rfl rfl hissued ?_ ?_
    · rw [List.filter_false]
      exact EditBuffer.edits_discard_none h.numbered.nodup
    · intro e l _
      simp [EditCall.ends]
  | some keys =>
    refine h.drop (.discard (some keys)) (fun e => e.key ∉ keys) rfl rfl hissued
      (EditBuffer.edits_discard_some c.held (hdistinct keys rfl)) ?_
    intro e l hel
    simp [EditCall.ends, hel.key]

theorem Follows.stored (h : Follows log c) {number : ℕ} {batch : Batch}
    (hbatch : c.taken[number]? = some batch) :
    Follows (log ++ [.stored number]) { c with held := (c.held.discardFlushed batch).1 } := by
  have hbound : number < c.taken.length := (List.getElem?_eq_some_iff.1 hbatch).1
  have hknows := h.knows batch (List.mem_of_getElem? hbatch)
  refine h.drop (.discardFlushed batch) (fun e => ¬ batch.Holds e) rfl rfl
    (c.held.discardFlushed_sublist batch).2
    (EditBuffer.edits_discardFlushed h.numbered.toOrderly hknows) ?_
  intro e l hel
  simp [EditCall.ends, hbound, hel.holds number batch hbatch]

/-- A call that stores no batch of the buffer leaves all edits as they are. -/
theorem Follows.nothing (h : Follows log c) {logged : EditCall} (htakes : logged.takes = 0)
    (hmakes : logged.makes (batchesTaken log) = [])
    (hends : ∀ l, logged.ends c.taken.length l = false) : Follows (log ++ [logged]) c where
  numbered := h.numbered
  count := by rw [batchesTaken_concat, htakes]; exact h.count
  knows := h.knows
  counted := h.counted
  edits := by
    have hall : (standing 0 log).filter
        (fun l => !logged.ends (0 + batchesTaken log) l) = standing 0 log := by
      refine List.filter_eq_self.2 fun l _ => ?_
      rw [Nat.zero_add, ← h.count, hends, Bool.not_false]
    rw [standing_concat, hall, Nat.zero_add, hmakes, List.append_nil]
    exact h.edits

theorem Follows.after (h : Follows log c) (call : EditCall)
    (hdistinct : ∀ keys, call = .discard (some keys) → keys.Nodup) :
    Follows (log ++ [call]) (c.after EditBuffer.after (fun b => some b.snapshot) call) := by
  cases call with
  | set key value => exact h.set key value
  | snapshot => exact h.snapshot
  | discard keys? => exact h.discard fun keys hkeys => hdistinct keys (congrArg _ hkeys)
  | stored number =>
    cases hbatch : c.taken[number]? with
    | some batch =>
      simp only [Client.after, hbatch]
      exact h.stored hbatch
    | none =>
      simp only [Client.after, hbatch]
      have hbound : ¬ number < c.taken.length := Nat.not_lt.2 (List.getElem?_eq_none_iff.1 hbatch)
      exact h.nothing rfl rfl fun l => by simp [EditCall.ends, hbound]
  | storedOther entries =>
    have hsame :
        c.after EditBuffer.after (fun b => some b.snapshot) (.storedOther entries) = c := by
      simp [Client.after, EditBuffer.after, EditBuffer.discardFlushed_ofEntries h.numbered]
    rw [hsame]
    exact h.nothing rfl rfl fun _ => rfl

/-- From an empty buffer on the client follows its log. -/
theorem follows_ofBuffer (hdistinct : ∀ keys, .discard (some keys) ∈ log → keys.Nodup) :
    Follows log (ofBuffer log) := by
  induction log using List.reverseRecOn with
  | nil => exact follows_nil
  | append_singleton log call ih =>
    have hfollows := ih fun keys hkeys => hdistinct keys (List.mem_append_left _ hkeys)
    rw [ofBuffer, List.foldl_append]
    exact hfollows.after call fun keys hkeys => hdistinct keys (by simp [hkeys])

/-! ## Buffer and tables side by side -/

/-- The two clients hold the same edits and have taken the same batches. -/
structure Agrees (t : Client EditTables) (c : Client EditBuffer) : Prop where
  held : t.held.Represents c.held
  taken : t.taken = c.taken

theorem Agrees.act {t : Client EditTables} (h : Agrees t c) (call : BufferCall) :
    Agrees { t with held := t.held.after call } { c with held := c.held.after call } :=
  ⟨h.held.after call, h.taken⟩

theorem Agrees.after {t : Client EditTables} (h : Agrees t c) (hnodup : c.held.keys.Nodup)
    (call : EditCall) :
    Agrees (t.after EditTables.after (fun t => t.snapshot.toOption) call)
      (c.after EditBuffer.after (fun b => some b.snapshot) call) := by
  cases call with
  | set key value => exact h.act (.set key value)
  | snapshot =>
    refine ⟨h.held, ?_⟩
    simp only [Client.after, h.taken, h.held.snapshot hnodup]
    rfl
  | discard keys? => exact h.act (.discard keys?)
  | stored number =>
    simp only [Client.after, h.taken]
    cases c.taken[number]? with
    | some batch => exact ⟨h.held.after (.discardFlushed batch), rfl⟩
    | none => exact h
  | storedOther entries => exact h.act (.discardFlushed (.ofEntries entries))

theorem ofTables_agrees (hdistinct : ∀ keys, .discard (some keys) ∈ log → keys.Nodup) :
    Agrees (ofTables log) (ofBuffer log) := by
  induction log using List.reverseRecOn with
  | nil => exact ⟨EditTables.represents_empty, rfl⟩
  | append_singleton log call ih =>
    have hearlier : ∀ keys, .discard (some keys) ∈ log → keys.Nodup :=
      fun keys hkeys => hdistinct keys (List.mem_append_left _ hkeys)
    rw [ofTables, ofBuffer, List.foldl_append, List.foldl_append]
    exact (ih hearlier).after (follows_ofBuffer hearlier).numbered.nodup call

end Client

/-- A buffer, and the tables that take its place, after the calls of a log. -/
structure HoldsStanding (log : List EditCall) (c : Client EditBuffer) (t : Client EditTables) :
    Prop where
  /-- There are just the edits that still stand, in the order in which they were made. -/
  items : c.held.items = (standing 0 log).map fun e => (e.key, e.value)
  once : c.held.keys.Nodup
  values : t.held.values = c.held.items
  sameKeys : (Entries.keys t.held.values).Perm (Entries.keys t.held.revisions)
  counter : t.held.counter = c.held.issued
  /-- The tables have handed out every batch that the buffer has. -/
  taken : t.taken = c.taken
  /-- A batch that is taken now counts up to the counter, and so do all that were taken. -/
  now : t.held.snapshot = .ok c.held.snapshot ∧ c.held.snapshot.CountsUpTo c.held.issued
  earlier : ∀ batch ∈ c.taken, batch.CountsUpTo c.held.issued

/-- Whatever a client calls, as long as it does not give a key twice where it drops edits, the
buffer holds the edits that its log leaves standing: every key that has not been dropped since it
was edited last, once, with the value and in the place of that last edit. Held in two tables, values
and revisions have the same keys. The revisions in every batch are positive, grow from entry to
entry, and are at most the counter. -/
theorem buffer_holds_what_stands (log : List EditCall)
    (hdistinct : ∀ keys, .discard (some keys) ∈ log → keys.Nodup) :
    HoldsStanding log (.ofBuffer log) (.ofTables log) := by
  have hfollows := Client.follows_ofBuffer hdistinct
  have hagrees := Client.ofTables_agrees hdistinct
  have hnodup := hfollows.numbered.nodup
  have hcopy := hagrees.held.snapshot hnodup
  constructor
  case items =>
    have hsame : List.Forall₂ (· = ·) (Client.ofBuffer log).held.items
        ((standing 0 log).map fun e => (e.key, e.value)) := by
      rw [EditBuffer.items, List.forall₂_map_left_iff, List.forall₂_map_right_iff]
      exact hfollows.edits.imp fun e l hel => by rw [hel.key, hel.value]
    rwa [List.forall₂_eq_eq_eq] at hsame
  case once => exact hnodup
  case values => exact hagrees.held.values
  case sameKeys => exact hagrees.held.keys_perm hnodup
  case counter => exact hagrees.held.counter
  case taken => exact hagrees.taken
  case now => exact ⟨hcopy, hfollows.numbered.countsUpTo_snapshot⟩
  case earlier => exact hfollows.counted

/-- A batch is stored twice, and a batch from elsewhere once. The key that was edited first and last
is the first of the revisions and the last of the values. -/
theorem busy_log_leaves_two :
    let log : List EditCall := [.set "a" "1", .set "b" "2", .snapshot, .set "a" "3", .set "c" "4",
      .stored 0, .storedOther [("c", "4")], .set "b" "5", .snapshot, .discard (some ["c", "x"]),
      .stored 0, .set "a" "6"]
    (∀ keys, .discard (some keys) ∈ log → keys.Nodup) ∧
      HoldsStanding log (.ofBuffer log) (.ofTables log) ∧
      (Client.ofTables log).held.values = [("b", "5"), ("a", "6")] ∧
      (Client.ofTables log).held.revisions = [("a", 6), ("b", 5)] := by
  intro log
  have hdistinct : ∀ keys, .discard (some keys) ∈ log → keys.Nodup := by
    intro keys hkeys
    have hgiven : keys = ["c", "x"] := by simpa [log] using hkeys
    rw [hgiven]
    decide
  exact ⟨hdistinct, buffer_holds_what_stands log hdistinct, by decide, by decide⟩

end DeferredSave
