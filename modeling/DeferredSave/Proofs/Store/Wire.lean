import DeferredSave.Proofs.Instant.ReadBack
import DeferredSave.Proofs.Json.ReadBack
import DeferredSave.Setting

/-! Settings come back from their form on the wire.

Each document that the two ends exchange consists of texts and nulls alone, so it comes back from
its bytes, and the reader of its form undoes the writer. -/

namespace DeferredSave

/-! ### Documents of texts -/

namespace Json

/-- A document of texts and nulls. -/
abbrev Textual : Json → Prop := BuiltFrom (· = null)

theorem textual_ofText? (s? : Option String) : (ofText? s?).Textual := by
  cases s? with
  | none => exact .leaf rfl
  | some s => exact .text s

/-- A way to write documents in bytes from which textual ones come back. -/
structure Writer where
  write : Json → List UInt8
  readBack : ∀ j, j.Textual → ofBytes (write j) = .ok j

/-- Writes a document on one line. -/
def Writer.oneLine : Writer where
  write j := Text.Utf8.encode (print j).toList
  readBack j h := by
    refine ofBytes_print ?_ h
    rintro _ rfl
    exact ⟨readsBack_null, by simp [print, Visible]⟩

end Json

/-! ### Collections -/

namespace Checked

variable {α β : Type}

@[simp] theorem below_ok (step : PlaceStep) (a : α) : (ok a).below step = ok a := rfl

@[simp] theorem map_ok (f : α → β) (a : α) : f <$> ok a = ok (f a) := rfl

@[simp] theorem seq_ok (f : α → β) (a : α) : ok f <*> ok a = ok (f a) := rfl

theorem all_ok {f : α → Checked β} {g : α → β} {as : List α} (h : ∀ a ∈ as, f a = .ok (g a)) :
    all (as.map f) = .ok (as.map g) := by
  induction as with
  | nil => rfl
  | cons a as ih =>
    rw [List.map_cons, all, h a (by simp), ih fun b hb => h b (by simp [hb])]
    rfl

end Checked

namespace Reader

variable {α : Type}

/-- A list comes back if its items do. -/
theorem list_toJson {r : Reader α} {write : α → Json} {as : List α}
    (h : ∀ a ∈ as, r (write a) = .ok a) : list r (.array (as.map write)) = .ok as := by
  have hall := Checked.all_ok (f := fun e : α × Nat => (r (write e.1)).below (.item e.2))
    (g := (·.1)) fun e (he : e ∈ as.zipIdx) => by rw [h e.1 (List.fst_mem_of_mem_zipIdx he)]; rfl
  rw [show as.zipIdx.map (·.1) = as from List.zipIdx_map_fst 0 as] at hall
  simpa [list, items, List.zipIdx_map, Function.comp_def] using hall

/-- A table comes back if its values do. -/
theorem table_toJson {r : Reader α} (write : α → Json) {es : List (String × α)}
    (h : ∀ e ∈ es, r (write e.2) = .ok e.2) :
    table r (.object (es.map fun (k, a) => (k, write a))) = .ok es := by
  have hall := Checked.all_ok
    (f := fun e : String × α => ((r (write e.2)).map (e.1, ·)).below (.field e.1)) (g := id)
    fun e (he : e ∈ es) => by rw [h e he]; rfl
  simpa [table, Function.comp_def] using hall

end Reader

/-! ### Settings and updates -/

theorem Reader.stamp_text_of {s : String} {t : Stamp} (h : Stamp.ofText? s = some t) :
    Reader.stamp (.text s) = .ok t := by
  unfold Reader.stamp
  simp only [h]

theorem Json.nullable_ofText? (s? : Option String) :
    Reader.nullable Reader.text (.ofText? s?) = .ok s? := by
  cases s? <;> rfl

namespace Setting

theorem reader_toJson {s : Setting} (h : s.updatedAt.Valid) : reader s.toJson = .ok s := by
  have hstamp := Reader.stamp_text_of (Stamp.ofText?_text h)
  simp [reader, toJson, Reader.model, Reader.required, Reader.optional, Reader.fieldValue?,
    List.lookup_cons, FieldName.one, FieldName.updatedAt, FieldName.updatedBy, Reader.text, hstamp,
    Json.nullable_ofText?]

theorem textual_toJson (s : Setting) : s.toJson.Textual := by
  refine .object (by simp [Entries.keys]) fun e he => ?_
  simp only [List.mem_cons, List.not_mem_nil, or_false] at he
  rcases he with rfl | rfl | rfl | rfl | rfl
  · exact .text _
  · exact .text _
  · exact Json.textual_ofText? _
  · exact .text _
  · exact Json.textual_ofText? _

theorem updatedReader_updatedJson {ss : List Setting} (h : ∀ s ∈ ss, s.updatedAt.Valid) :
    updatedReader (updatedJson ss) = .ok ss := by
  have hlist : Reader.list reader (.array (ss.map toJson)) = .ok ss :=
    Reader.list_toJson fun s hs => reader_toJson (h s hs)
  simp [updatedReader, updatedJson, Reader.model, Reader.required, Reader.fieldValue?,
    FieldName.one, hlist, Checked.below]

theorem textual_updatedJson (ss : List Setting) : (updatedJson ss).Textual := by
  refine .object (by simp [Entries.keys]) fun e he => ?_
  obtain rfl := List.mem_singleton.1 he
  refine .array fun j hj => ?_
  obtain ⟨s, -, rfl⟩ := List.mem_map.1 hj
  exact s.textual_toJson

end Setting

namespace Categories

theorem reader_toJson {c : Categories} (h : ∀ e ∈ c, ∀ s ∈ e.2, s.updatedAt.Valid) :
    reader c.toJson = .ok c := by
  have htable := Reader.table_toJson (fun ss : List Setting => .array (ss.map Setting.toJson))
    fun e (he : e ∈ c) => Reader.list_toJson fun s hs => Setting.reader_toJson (h e he s hs)
  simp [reader, toJson, Reader.model, Reader.required, Reader.fieldValue?, FieldName.one, htable,
    Checked.below]

theorem textual_toJson {c : Categories} (h : (Entries.keys c).Nodup) : c.toJson.Textual := by
  refine .object (by simp [Entries.keys]) fun e he => ?_
  obtain rfl := List.mem_singleton.1 he
  refine .object ?_ fun e he => ?_
  · simpa [Entries.keys, Function.comp_def] using h
  · obtain ⟨⟨name, ss⟩, -, rfl⟩ := List.mem_map.1 he
    refine .array fun j hj => ?_
    obtain ⟨s, -, rfl⟩ := List.mem_map.1 hj
    exact s.textual_toJson

end Categories

namespace Update

theorem reader_toJson {u : Update} (h : u.key ≠ "") : reader u.toJson = .ok u := by
  simp [reader, toJson, Reader.model, Reader.required, Reader.fieldValue?, List.lookup_cons,
    FieldName.one, Reader.nonEmptyText, Reader.text, h]

theorem requestReader_requestJson {us : List Update} (h : ∀ u ∈ us, u.key ≠ "") :
    requestReader (requestJson us) = .ok us := by
  have hlist : Reader.list reader (.array (us.map toJson)) = .ok us :=
    Reader.list_toJson fun u hu => reader_toJson (h u hu)
  simp [requestReader, requestJson, Reader.model, Reader.required, Reader.fieldValue?,
    FieldName.one, hlist, Checked.below]

theorem textual_requestJson (us : List Update) : (requestJson us).Textual := by
  refine .object (by simp [Entries.keys]) fun e he => ?_
  obtain rfl := List.mem_singleton.1 he
  refine .array fun j hj => ?_
  obtain ⟨u, -, rfl⟩ := List.mem_map.1 hj
  refine .object (by simp [Entries.keys]) fun e he => ?_
  simp only [List.mem_cons, List.not_mem_nil, or_false] at he
  rcases he with rfl | rfl <;> exact .text _

end Update

end DeferredSave
