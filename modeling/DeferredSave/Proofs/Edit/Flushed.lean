import DeferredSave.Proofs.Edit.Batch

/-!
# What storing a batch drops

Between the time when a batch is taken and the time when it is stored, a buffer may go through any
calls. Storing the batch compares revisions; it drops exactly the keys of the batch that none of the
calls has touched (`EditBuffer.flushed_keys_are_dropped`).
-/

namespace DeferredSave

/-- A call that can change a buffer. Batches may come from anywhere. -/
inductive BufferCall where
  | set (key value : String)
  | discard (keys? : Option (List String))
  | discardFlushed (batch : Batch)

/-- Whether a call makes an edit of a key. -/
def BufferCall.sets (key : String) : BufferCall → Bool
  | set key' _ => key' = key
  | _ => false

namespace EditBuffer

variable {b b' : EditBuffer} {e : Edit} {c : BufferCall} {calls : List BufferCall} {key : String}

/-! ## Calls -/

/-- The buffer after a call, also after one that ends early with an error. -/
def after (b : EditBuffer) : BufferCall → EditBuffer
  | .set key value => b.set key value
  | .discard keys? => (b.discard keys?).1
  | .discardFlushed batch => (b.discardFlushed batch).1

/-- The buffer after calls, one after the other. -/
def run (b : EditBuffer) (calls : List BufferCall) : EditBuffer := calls.foldl after b

/-- A call touches a key: it makes an edit of the key, or removes the one that is there. -/
def Touched (b : EditBuffer) (key : String) (c : BufferCall) : Prop :=
  c.sets key = true ∨ (key ∈ b.keys ∧ key ∉ (b.after c).keys)

instance (b : EditBuffer) (key : String) (c : BufferCall) : Decidable (b.Touched key c) :=
  inferInstanceAs (Decidable (_ ∨ _))

/-- None of the calls, one after the other, touches the key. -/
def Untouched (b : EditBuffer) (key : String) : List BufferCall → Prop
  | [] => True
  | c :: calls => ¬ b.Touched key c ∧ (b.after c).Untouched key calls

instance decidableUntouched (b : EditBuffer) (key : String) :
    (calls : List BufferCall) → Decidable (b.Untouched key calls)
  | [] => isTrue trivial
  | c :: calls =>
    have := decidableUntouched (b.after c) key calls
    inferInstanceAs (Decidable (_ ∧ _))

/-- A call makes an edit, or only drops some. -/
theorem after_cases (b : EditBuffer) (c : BufferCall) :
    (∃ key value, c = .set key value) ∨
      ((∀ key, c.sets key = false) ∧ (b.after c).edits.Sublist b.edits ∧
        (b.after c).issued = b.issued) := by
  cases c with
  | set key value => exact .inl ⟨key, value, rfl⟩
  | discard keys? => exact .inr ⟨fun _ => rfl, b.discard_sublist keys?⟩
  | discardFlushed batch => exact .inr ⟨fun _ => rfl, b.discardFlushed_sublist batch⟩

/-! ## What stands in every buffer -/

/-- The edits of the buffer are in order, and their revisions count from one. -/
structure Numbered (b : EditBuffer) : Prop extends Orderly b where
  positive : ∀ e ∈ b.edits, 0 < e.revision
  nonneg : 0 ≤ b.issued

theorem numbered_empty : Numbered {} where
  nodup := List.nodup_nil
  growing := List.Pairwise.nil
  issued := nofun
  positive := nofun
  nonneg := Int.le_refl 0

theorem Numbered.after (h : b.Numbered) (c : BufferCall) : (b.after c).Numbered := by
  rcases b.after_cases c with ⟨key, value, rfl⟩ | ⟨-, hsub, hissued⟩
  · have hnonneg := h.nonneg
    refine { h.toOrderly.set key value with positive := fun e he => ?_, nonneg := ?_ }
    · rcases mem_set.1 he with ⟨hold, -⟩ | rfl
      · exact h.positive e hold
      · exact Int.lt_add_one_of_le hnonneg
    · exact Int.le_add_one hnonneg
  · exact { h.toOrderly.of_sublist hsub hissued with
      positive := fun e he => h.positive e (hsub.subset he)
      nonneg := hissued ▸ h.nonneg }

theorem Numbered.run (h : b.Numbered) (calls : List BufferCall) : (b.run calls).Numbered := by
  induction calls generalizing b with
  | nil => exact h
  | cons c calls ih => exact ih (h.after c)

theorem Knows.after {batch : Batch} (h : b.Knows batch) (c : BufferCall) :
    (b.after c).Knows batch := by
  rcases b.after_cases c with ⟨key, value, rfl⟩ | ⟨-, hsub, hissued⟩
  · exact h.set key value
  · exact h.of_sublist hsub hissued

theorem Knows.run {batch : Batch} (h : b.Knows batch) (calls : List BufferCall) :
    (b.run calls).Knows batch := by
  induction calls generalizing b with
  | nil => exact h
  | cons c calls ih => exact ih (h.after c)

/-! ## An edit through calls -/

/-- Where edits were only dropped, an edit is there if its key is. -/
theorem mem_iff_of_sublist (hnodup : b.keys.Nodup) (hsub : b'.edits.Sublist b.edits)
    (he : e ∈ b.edits) : e ∈ b'.edits ↔ e.key ∈ b'.keys := by
  refine ⟨List.mem_map_of_mem, fun hkey => ?_⟩
  obtain ⟨e', he', hsame⟩ := List.mem_map.1 hkey
  -- no other edit has the key
  have hfound := find?_of_mem hnodup (hsub.subset he')
  rw [hsame, find?_of_mem hnodup he] at hfound
  exact Option.some.inj hfound ▸ he'

theorem mem_after_iff (h : b.Orderly) (he : e ∈ b.edits) (c : BufferCall) :
    e ∈ (b.after c).edits ↔ ¬ b.Touched e.key c := by
  have hkey : e.key ∈ b.keys := List.mem_map_of_mem he
  rcases b.after_cases c with ⟨key, value, rfl⟩ | ⟨hsets, hsub, -⟩
  · have hold : e ≠ ⟨key, value, b.issued + 1⟩ := by
      rintro rfl
      exact absurd (h.issued _ he) (Int.not_le.2 (Int.lt_succ _))
    have hmem : e ∈ (b.after (.set key value)).edits ↔ e.key ≠ key := by
      simp [after, mem_set, he, hold]
    constructor
    · rintro hstays (hset | ⟨-, hgone⟩)
      · exact hmem.1 hstays (of_decide_eq_true hset).symm
      · exact hgone (List.mem_map_of_mem hstays)
    · intro hnot
      refine hmem.2 fun hset => hnot (.inl ?_)
      exact decide_eq_true hset.symm
  · rw [mem_iff_of_sublist h.nodup hsub he, Touched, hsets]
    simp [hkey]

/-- An edit that is no longer there does not come back: a later edit has a greater revision. -/
theorem not_mem_run (hissued : e.revision ≤ b.issued) (hgone : e ∉ b.edits)
    (calls : List BufferCall) : e ∉ (b.run calls).edits := by
  induction calls generalizing b with
  | nil => exact hgone
  | cons c calls ih =>
    rcases b.after_cases c with ⟨key, value, rfl⟩ | ⟨-, hsub, hsame⟩
    · refine ih (Int.le_add_one hissued) fun hmem => ?_
      rcases mem_set.1 hmem with ⟨hold, -⟩ | rfl
      · exact hgone hold
      · exact absurd hissued (Int.not_le.2 (Int.lt_succ _))
    · exact ih (hsame ▸ hissued) fun hmem => hgone (hsub.subset hmem)

/-- An edit is there after calls if none of them has touched its key. -/
theorem mem_run_iff (h : b.Numbered) (he : e ∈ b.edits) (calls : List BufferCall) :
    e ∈ (b.run calls).edits ↔ b.Untouched e.key calls := by
  induction calls generalizing b with
  | nil => exact iff_of_true he trivial
  | cons c calls ih =>
    have hstep := mem_after_iff h.toOrderly he c
    by_cases htouched : b.Touched e.key c
    · have hgone : e ∉ (b.after c).edits := fun hmem => hstep.1 hmem htouched
      have hissued : e.revision ≤ (b.after c).issued := by
        have hle := h.issued e he
        rcases b.after_cases c with ⟨key, value, rfl⟩ | ⟨-, -, hsame⟩
        · exact Int.le_add_one hle
        · rwa [hsame]
      exact iff_of_false (not_mem_run hissued hgone calls) fun hun => hun.1 htouched
    · exact (ih (h.after c) (hstep.2 htouched)).trans (and_iff_right htouched).symm

/-! ## Storing a batch -/

/-- What is left are the edits whose keys are not among those that were dropped. -/
theorem fst_dropFlushed (b : EditBuffer) (entries : List (String × String))
    (revisions : List Int) :
    (b.dropFlushed entries revisions).1 =
      { b with
        edits := b.edits.filter (·.key ∉ (b.dropFlushed entries revisions).2) } := by
  fun_induction dropFlushed b entries revisions with
  | case1 b key value entries revision revisions hcurrent b' dropped heq ih =>
    rw [heq] at ih
    simp only at ih ⊢
    rw [ih]
    simp only [erase, List.filter_filter, List.mem_cons, not_or, Bool.decide_and, Bool.and_comm,
      ne_eq]
  | case2 b key value entries revision revisions hcurrent ih => exact ih
  | case3 entries b revisions _ =>
    have hall : b.edits.filter (·.key ∉ ([] : List String)) = b.edits :=
      List.filter_eq_self.2 fun _ _ => by simp
    rw [hall]

/-- With no key given twice, an entry does not depend on those before it: its key is dropped if its
edit is the one of the entry's revision. -/
theorem snd_dropFlushed {entries : List (String × String)} (revisions : List Int)
    (hdistinct : (entries.map (·.1)).Nodup) (b : EditBuffer) :
    (b.dropFlushed entries revisions).2 =
      ((entries.zip revisions).filter fun p => (b.find? p.1.1).any (·.revision = p.2)).map
        (·.1.1) := by
  fun_induction dropFlushed b entries revisions with
  | case1 b key value entries revision revisions hcurrent b' dropped heq ih =>
    obtain ⟨hnot, hrest⟩ := List.nodup_cons.1 hdistinct
    rw [heq] at ih
    have hothers : ∀ p ∈ entries.zip revisions,
        ((b.erase key).find? p.1.1).any (·.revision = p.2) =
          (b.find? p.1.1).any (·.revision = p.2) := by
      intro p hp
      have hne : p.1.1 ≠ key := by
        intro hsame
        exact hnot (List.mem_map.2 ⟨p.1, (List.of_mem_zip hp).1, hsame⟩)
      rw [find?_erase_of_ne hne]
    rw [List.zip_cons_cons, List.filter_cons, if_pos hcurrent, List.map_cons,
      ← List.filter_congr hothers]
    exact congrArg _ (ih hrest)
  | case2 b key value entries revision revisions hcurrent ih =>
    rw [List.zip_cons_cons, List.filter_cons, if_neg hcurrent]
    exact ih (List.nodup_cons.1 hdistinct).2
  | case3 entries b revisions hshape =>
    cases entries with
    | nil => rfl
    | cons entry entries =>
      cases revisions with
      | nil => rfl
      | cons revision revisions => exact (hshape _ _ _ _ _ rfl rfl).elim

/-- Entries whose revisions no edit has drop nothing. -/
theorem dropFlushed_of_foreign {entries : List (String × String)} {revisions : List Int}
    (hforeign : ∀ revision ∈ revisions, ∀ e ∈ b.edits, e.revision ≠ revision) :
    b.dropFlushed entries revisions = (b, []) := by
  induction entries generalizing revisions with
  | nil => rfl
  | cons entry entries ih =>
    cases revisions with
    | nil => rfl
    | cons revision revisions =>
      obtain ⟨hfirst, hrest⟩ := List.forall_mem_cons.1 hforeign
      have hnone : ¬ (b.find? entry.1).any (·.revision = revision) = true := by
        rw [Option.any_eq_true]
        rintro ⟨e, hfound, hsame⟩
        exact hfirst e (List.mem_of_find?_eq_some hfound) (of_decide_eq_true hsame)
      rw [dropFlushed, if_neg hnone]
      exact ih hrest

/-- An edit that was taken is the one with its key and its revision, if it is there. -/
theorem Knows.any_find?_iff {batch : Batch} (hknows : b.Knows batch) (horderly : b.Orderly)
    (hholds : batch.Holds e) :
    (b.find? e.key).any (·.revision = e.revision) = true ↔ e ∈ b.edits := by
  rw [Option.any_eq_true]
  constructor
  · rintro ⟨e', hfound, hsame⟩
    have he' : e' ∈ b.edits := List.mem_of_find?_eq_some hfound
    exact hknows.same e hholds e' he' (of_decide_eq_true hsame).symm ▸ he'
  · intro he
    exact ⟨e, find?_of_mem horderly.nodup he, decide_eq_true rfl⟩

/-- The keys that the storing of a snapshot drops are those of its edits that are still there. -/
theorem snd_dropFlushed_snapshot {taken : EditBuffer} (htaken : taken.Orderly)
    (hknows : b.Knows taken.snapshot) (horderly : b.Orderly) :
    (b.dropFlushed taken.snapshot.entries taken.snapshot.revisions).2 =
      (taken.edits.filter (· ∈ b.edits)).map (·.key) := by
  have hcurrent : ∀ e ∈ taken.edits,
      (b.find? e.key).any (·.revision = e.revision) = decide (e ∈ b.edits) := fun e he =>
    Bool.eq_iff_iff.2 ((hknows.any_find?_iff horderly (snapshot_holds.2 he)).trans
      decide_eq_true_iff.symm)
  have hdistinct : (taken.snapshot.entries.map (·.1)).Nodup := htaken.knows_snapshot.distinct
  rw [snd_dropFlushed _ hdistinct, zip_snapshot, List.filter_map, List.map_map,
    ← List.filter_congr hcurrent]
  rfl

/-- Storing a snapshot, after any calls, drops exactly those of its keys that were neither set again
nor removed since it was taken. They are listed in the order of the snapshot, each has the edit that
the snapshot holds, and nothing else in the buffer changes. A batch that was taken from no buffer
drops nothing. -/
theorem flushed_keys_are_dropped (earlier later : List BufferCall) :
    let taken := run {} earlier
    let b := taken.run later
    let dropped := taken.snapshot.keys.filter fun key => taken.Untouched key later
    b.discardFlushed taken.snapshot =
        ({ b with edits := b.edits.filter (·.key ∉ dropped) }, .ok dropped) ∧
      (∀ key ∈ dropped, ∃ e, taken.find? key = some e ∧ b.find? key = some e) ∧
      ∀ pairs, b.discardFlushed (.ofEntries pairs) = (b, .ok []) := by
  intro taken b dropped
  have htaken : taken.Numbered := numbered_empty.run earlier
  have hb : b.Numbered := htaken.run later
  have hknows : b.Knows taken.snapshot := htaken.knows_snapshot.run later
  have hdropped : dropped = (taken.edits.filter (· ∈ b.edits)).map (·.key) := by
    have hstays : ∀ e ∈ taken.edits,
        decide (taken.Untouched e.key later) = decide (e ∈ b.edits) := fun e he =>
      decide_eq_decide.2 (mem_run_iff htaken he later).symm
    simp only [dropped]
    rw [keys_snapshot, keys, List.filter_map, ← List.filter_congr hstays]
    rfl
  have hlisted := snd_dropFlushed_snapshot htaken.toOrderly hknows hb.toOrderly
  refine ⟨?_, ?_, ?_⟩
  · have hleft := b.fst_dropFlushed taken.snapshot.entries taken.snapshot.revisions
    rw [← hdropped] at hlisted
    rw [hlisted] at hleft
    simp only [discardFlushed, hknows.paired, Nat.lt_irrefl, if_false, hleft, hlisted]
  · intro key hkey
    rw [hdropped] at hkey
    obtain ⟨e, he, rfl⟩ := List.mem_map.1 hkey
    obtain ⟨hthen, hnow⟩ := List.mem_filter.1 he
    exact ⟨e, find?_of_mem htaken.nodup hthen,
      find?_of_mem hb.nodup (of_decide_eq_true hnow)⟩
  · intro pairs
    have hforeign : ∀ revision ∈ (Batch.ofEntries pairs).revisions, ∀ e ∈ b.edits,
        e.revision ≠ revision := by
      intro revision hzero e he hsame
      obtain ⟨-, -, rfl⟩ := List.mem_map.1 hzero
      exact absurd (hb.positive e he) (by rw [hsame]; exact Int.lt_irrefl 0)
    have hnothing : b.dropFlushed (Batch.ofEntries pairs).entries
        (Batch.ofEntries pairs).revisions = (b, []) := dropFlushed_of_foreign hforeign
    have hpaired : (Batch.ofEntries pairs).revisions.length =
        (Batch.ofEntries pairs).entries.length := by
      simp [Batch.ofEntries]
    simp only [discardFlushed, hpaired, Nat.lt_irrefl, if_false, hnothing]

/-- A key that is set again stays, also with the value that it had. -/
example :
    let taken := run {} [.set "a" "1", .set "b" "2", .set "c" "3"]
    let b := taken.run [.set "a" "1", .discard (some ["b"]), .set "b" "4"]
    b.discardFlushed taken.snapshot = (⟨[⟨"a", "1", 4⟩, ⟨"b", "4", 5⟩], 5⟩, .ok ["c"]) := rfl

end EditBuffer

end DeferredSave
