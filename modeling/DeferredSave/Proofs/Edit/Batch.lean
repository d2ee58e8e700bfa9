import DeferredSave.Edit.Buffer

/-!
# What a batch holds

A batch holds an edit if it was taken while that very edit stood in the buffer. Since the revisions
of a buffer only grow, an edit made later is never mistaken for one that a batch holds, and storing
a batch drops those of its edits that are still there (`mem_discardFlushed`).
-/

namespace DeferredSave

/-- The batch was taken while the edit was in the buffer: one of its entries has the key and the
value of the edit, and its revision. -/
def Batch.Holds (batch : Batch) (e : Edit) : Prop :=
  ((e.key, e.value), e.revision) ∈ batch.entries.zip batch.revisions

instance (batch : Batch) (e : Edit) : Decidable (batch.Holds e) :=
  inferInstanceAs (Decidable (_ ∈ _))

namespace EditBuffer

variable {b : EditBuffer} {e : Edit}

/-- No two edits have one key, and their revisions grow up to the greatest that was issued. -/
structure Orderly (b : EditBuffer) : Prop where
  nodup : b.keys.Nodup
  growing : b.edits.Pairwise (·.revision < ·.revision)
  issued : ∀ e ∈ b.edits, e.revision ≤ b.issued

/-! ## Looking up -/

theorem find?_of_mem (h : b.keys.Nodup) (he : e ∈ b.edits) : b.find? e.key = some e := by
  unfold find?
  obtain ⟨edits, issued⟩ := b
  simp only [keys] at h he ⊢
  induction edits with
  | nil => cases he
  | cons first rest ih =>
    obtain ⟨hnot, hrest⟩ := List.nodup_cons.1 h
    rcases List.mem_cons.1 he with rfl | he
    · simp
    · -- no other edit has the key of the first one, so the search goes on
      have hne : first.key ≠ e.key := by
        intro heq
        exact hnot (List.mem_map.2 ⟨e, he, heq.symm⟩)
      simpa [hne] using ih hrest he

/-- In an orderly buffer an edit is known by its revision. -/
theorem Orderly.eq_of_revision (h : b.Orderly) {e' : Edit} (he : e ∈ b.edits) (he' : e' ∈ b.edits)
    (hrev : e.revision = e'.revision) : e = e' := by
  obtain ⟨i, hi, rfl⟩ := List.getElem_of_mem he
  obtain ⟨j, hj, rfl⟩ := List.getElem_of_mem he'
  -- at different places the revisions would differ
  have hgrow := List.pairwise_iff_getElem.1 h.growing
  rcases Nat.lt_trichotomy i j with hij | rfl | hji
  · have := hgrow i j hi hj hij
    omega
  · rfl
  · have := hgrow j i hj hi hji
    omega

/-! ## Snapshots -/

theorem zip_snapshot (b : EditBuffer) :
    b.snapshot.entries.zip b.snapshot.revisions =
      b.edits.map fun e => ((e.key, e.value), e.revision) := by
  simp [snapshot, items, List.zip_map']

theorem snapshot_holds : b.snapshot.Holds e ↔ e ∈ b.edits := by
  rw [Batch.Holds, zip_snapshot, List.mem_map]
  constructor
  · rintro ⟨e', he', heq⟩
    obtain ⟨hkey, hvalue⟩ := Prod.mk.inj heq
    obtain ⟨hkey, hval⟩ := Prod.mk.inj hkey
    cases e; cases e'
    simp_all
  · intro he
    exact ⟨e, he, rfl⟩

@[simp] theorem snapshot_isEmpty : b.snapshot.isEmpty = b.isEmpty := by
  simp [snapshot, items, Batch.isEmpty, isEmpty]

/-! ## Making an edit -/

@[simp] theorem issued_set (key value : String) : (b.set key value).issued = b.issued + 1 := rfl

theorem mem_set {key value : String} :
    e ∈ (b.set key value).edits ↔
      (e ∈ b.edits ∧ e.key ≠ key) ∨ e = ⟨key, value, b.issued + 1⟩ := by
  simp [set, erase]

theorem Orderly.of_sublist {b' : EditBuffer} (h : b.Orderly) (hsub : b'.edits.Sublist b.edits)
    (hissued : b'.issued = b.issued) : b'.Orderly where
  nodup := by
    have hkeys : b'.keys.Sublist b.keys := hsub.map Edit.key
    exact hkeys.nodup h.nodup
  growing := h.growing.sublist hsub
  issued := fun e he => hissued ▸ h.issued e (hsub.subset he)

theorem Orderly.erase (h : b.Orderly) (key : String) : (b.erase key).Orderly :=
  h.of_sublist List.filter_sublist rfl

theorem Orderly.set (h : b.Orderly) (key value : String) : (b.set key value).Orderly := by
  have herase := h.erase key
  have hnew : key ∉ (b.erase key).keys := by
    simp [keys, EditBuffer.erase]
  refine ⟨?_, ?_, ?_⟩
  · have hkeys : (b.set key value).keys = (b.erase key).keys ++ [key] := by
      simp [keys, EditBuffer.set]
    rw [hkeys]
    refine List.nodup_append.2 ⟨herase.nodup, by simp, ?_⟩
    intro k hk k' hk' heq
    rw [heq, List.mem_singleton.1 hk'] at hk
    exact hnew hk
  · refine List.pairwise_append.2 ⟨herase.growing, by simp, ?_⟩
    intro x hx y hy
    have hle := herase.issued x hx
    rw [List.mem_singleton.1 hy]
    exact Int.lt_add_one_of_le hle
  · intro x hx
    rcases mem_set.1 hx with ⟨hx, -⟩ | rfl
    · have hle := h.issued x hx
      simp only [issued_set]
      omega
    · simp

/-! ## Dropping edits -/

theorem mem_erase {key : String} : e ∈ (b.erase key).edits ↔ e ∈ b.edits ∧ e.key ≠ key := by
  simp [erase]

theorem eraseEach_sublist (keys : List String) (b : EditBuffer) :
    (b.eraseEach keys).1.edits.Sublist b.edits ∧ (b.eraseEach keys).1.issued = b.issued := by
  induction keys generalizing b with
  | nil => exact ⟨List.Sublist.refl _, rfl⟩
  | cons key keys ih =>
    unfold eraseEach
    split
    · obtain ⟨hsub, hissued⟩ := ih (b.erase key)
      exact ⟨hsub.trans List.filter_sublist, hissued⟩
    · exact ⟨List.Sublist.refl _, rfl⟩

theorem mem_eraseEach {keys : List String} (he : e ∈ b.edits) (hkey : e.key ∉ keys) :
    e ∈ (b.eraseEach keys).1.edits := by
  induction keys generalizing b with
  | nil => exact he
  | cons key keys ih =>
    rw [List.mem_cons, not_or] at hkey
    unfold eraseEach
    split
    · exact ih (mem_erase.2 ⟨he, hkey.1⟩) hkey.2
    · exact he

theorem fst_discard (b : EditBuffer) (keys? : Option (List String)) :
    (b.discard keys?).1 = (b.eraseEach (match keys? with
      | none => b.keys
      | some keys => keys.filter b.contains)).1 := by
  unfold discard
  dsimp only
  split <;> rename_i heq <;> exact (congrArg Prod.fst heq).symm

/-- Dropping edits leaves the others in their order, also where a repeated key ends it early. -/
theorem discard_sublist (b : EditBuffer) (keys? : Option (List String)) :
    (b.discard keys?).1.edits.Sublist b.edits ∧ (b.discard keys?).1.issued = b.issued := by
  rw [fst_discard]
  exact eraseEach_sublist _ b

theorem mem_discard {keys : List String} (he : e ∈ b.edits) (hkey : e.key ∉ keys) :
    e ∈ (b.discard (some keys)).1.edits := by
  rw [fst_discard]
  exact mem_eraseEach he fun h => hkey (List.mem_filter.1 h).1

theorem isEmpty_discard (b : EditBuffer) (keys? : Option (List String))
    (h : b.isEmpty = true) : (b.discard keys?).1.isEmpty = true := by
  have hsub := (b.discard_sublist keys?).1
  rw [isEmpty, List.isEmpty_iff] at h
  rw [h, List.sublist_nil] at hsub
  simp [isEmpty, hsub]

/-! ## Dropping what is stored -/

theorem dropFlushed_sublist (entries : List (String × String)) (revisions : List Int)
    (b : EditBuffer) :
    (b.dropFlushed entries revisions).1.edits.Sublist b.edits ∧
      (b.dropFlushed entries revisions).1.issued = b.issued := by
  fun_induction dropFlushed b entries revisions with
  | case1 b key value entries revision revisions hcurrent b' dropped heq ih =>
    rw [heq] at ih
    exact ⟨ih.1.trans List.filter_sublist, ih.2⟩
  | case2 b key value entries revision revisions hcurrent ih => exact ih
  | case3 b entries revisions _ => exact ⟨List.Sublist.refl _, rfl⟩

/-- An edit is dropped exactly if some entry has its key and its revision. -/
theorem mem_dropFlushed {entries : List (String × String)} {revisions : List Int}
    (h : b.keys.Nodup) :
    e ∈ (b.dropFlushed entries revisions).1.edits ↔
      e ∈ b.edits ∧ ∀ p ∈ entries.zip revisions, ¬(p.1.1 = e.key ∧ p.2 = e.revision) := by
  fun_induction dropFlushed b entries revisions with
  | case1 b key value entries revision revisions hcurrent b' dropped heq ih =>
    rw [heq] at ih
    rw [ih (List.Sublist.nodup (List.filter_sublist.map Edit.key) h), mem_erase,
      List.zip_cons_cons, List.forall_mem_cons, and_assoc]
    refine and_congr_right fun he => and_congr_left fun _ => not_congr ?_
    constructor
    · rintro rfl
      refine ⟨rfl, ?_⟩
      rw [find?_of_mem h he, Option.any_some, decide_eq_true_eq] at hcurrent
      exact hcurrent.symm
    · intro hkey
      exact hkey.1.symm
  | case2 b key value entries revision revisions hcurrent ih =>
    rw [ih h, List.zip_cons_cons, List.forall_mem_cons]
    refine and_congr_right fun he => (and_iff_right ?_).symm
    rintro ⟨rfl, rfl⟩
    rw [find?_of_mem h he] at hcurrent
    simp at hcurrent
  | case3 entries b revisions hshape =>
    refine (and_iff_left ?_).symm
    intro p hp
    cases entries with
    | nil => cases hp
    | cons entry entries =>
      cases revisions with
      | nil => cases hp
      | cons revision revisions => exact (hshape _ _ _ _ _ rfl rfl).elim

theorem fst_discardFlushed (b : EditBuffer) (batch : Batch) :
    (b.discardFlushed batch).1 = (b.dropFlushed batch.entries batch.revisions).1 := by
  unfold discardFlushed
  dsimp only
  split
  · rfl
  · split <;> rfl

/-! ## Batches of a buffer -/

/-- The batch can have been taken from the buffer at some time: no key is repeated, its revisions
were issued, and none of them belongs to another edit. -/
structure Knows (b : EditBuffer) (batch : Batch) : Prop where
  distinct : batch.keys.Nodup
  issued : ∀ e, batch.Holds e → e.revision ≤ b.issued
  same : ∀ e, batch.Holds e → ∀ e' ∈ b.edits, e.revision = e'.revision → e = e'
  paired : batch.entries.length = batch.revisions.length

theorem keys_snapshot (b : EditBuffer) : b.snapshot.keys = b.keys := by
  simp [Batch.keys, keys, snapshot, items]

theorem Orderly.knows_snapshot (h : b.Orderly) : b.Knows b.snapshot where
  distinct := b.keys_snapshot ▸ h.nodup
  issued := fun e he => h.issued e (snapshot_holds.1 he)
  same := fun _ he _ he' hrev => h.eq_of_revision (snapshot_holds.1 he) he' hrev
  paired := by simp [snapshot, items]

theorem Knows.of_sublist {batch : Batch} {b' : EditBuffer} (h : b.Knows batch)
    (hsub : b'.edits.Sublist b.edits) (hissued : b'.issued = b.issued) : b'.Knows batch where
  distinct := h.distinct
  issued := fun e he => hissued ▸ h.issued e he
  same := fun e he e' he' hrev => h.same e he e' (hsub.subset he') hrev
  paired := h.paired

/-- A new edit has a revision that no batch has. -/
theorem Knows.set {batch : Batch} (h : b.Knows batch) (key value : String) :
    (b.set key value).Knows batch where
  distinct := h.distinct
  issued := by
    intro e he
    have hle := h.issued e he
    rw [issued_set]
    omega
  same := by
    intro e he e' he' hrev
    rcases mem_set.1 he' with ⟨he', -⟩ | rfl
    · exact h.same e he e' he' hrev
    · -- the new edit has a greater revision than any edit of the batch
      have hle := h.issued e he
      simp only at hrev
      omega
  paired := h.paired

/-- Storing a batch drops the very edits that it holds. -/
theorem mem_discardFlushed {batch : Batch} (horderly : b.Orderly) (hknows : b.Knows batch) :
    e ∈ (b.discardFlushed batch).1.edits ↔ e ∈ b.edits ∧ ¬ batch.Holds e := by
  rw [fst_discardFlushed, mem_dropFlushed horderly.nodup]
  apply and_congr_right
  intro he
  constructor
  · intro hnone hholds
    exact hnone _ hholds ⟨rfl, rfl⟩
  · -- an entry with the revision of the edit is an entry of that edit
    rintro hholds ⟨⟨key, value⟩, revision⟩ hp ⟨-, hrev⟩
    have hheld : batch.Holds ⟨key, value, revision⟩ := hp
    have heq := hknows.same _ hheld e he hrev
    exact hholds (heq ▸ hheld)

theorem discardFlushed_sublist (b : EditBuffer) (batch : Batch) :
    (b.discardFlushed batch).1.edits.Sublist b.edits ∧
      (b.discardFlushed batch).1.issued = b.issued := by
  rw [fst_discardFlushed]
  exact dropFlushed_sublist batch.entries batch.revisions b

/-- A batch of the buffer is never refused. -/
theorem Knows.discardFlushed_ok {batch : Batch} (h : b.Knows batch) :
    ∃ dropped, (b.discardFlushed batch).2 = .ok dropped := by
  unfold discardFlushed
  simp [h.paired]

/-! ## Once a batch is stored -/

/-- The buffer knows the batch and has none of its edits. -/
structure Rid (batch : Batch) (b : EditBuffer) : Prop where
  knows : b.Knows batch
  gone : ∀ e ∈ b.edits, ¬ batch.Holds e

theorem Rid.of_sublist {batch : Batch} {b' : EditBuffer} (h : b.Rid batch)
    (hdrop : b'.edits.Sublist b.edits ∧ b'.issued = b.issued) : b'.Rid batch :=
  ⟨h.knows.of_sublist hdrop.1 hdrop.2, fun e he => h.gone e (hdrop.1.subset he)⟩

/-- An edit that is made later is never one of the batch. -/
theorem Rid.set {batch : Batch} (h : b.Rid batch) (key value : String) :
    (b.set key value).Rid batch where
  knows := h.knows.set key value
  gone := by
    intro e he hholds
    obtain ⟨he, -⟩ | rfl := mem_set.1 he
    · exact h.gone e he hholds
    · have hle := h.knows.issued _ hholds
      simp only at hle
      omega

theorem Knows.rid_discardFlushed {batch : Batch} (h : b.Knows batch) (horderly : b.Orderly) :
    (b.discardFlushed batch).1.Rid batch := by
  have hdrop := b.discardFlushed_sublist batch
  refine ⟨h.of_sublist hdrop.1 hdrop.2, fun e he => ?_⟩
  exact ((mem_discardFlushed horderly h).1 he).2

end EditBuffer

end DeferredSave
