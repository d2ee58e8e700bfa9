import DeferredSave.Proofs.Retry.Run
import DeferredSave.Store.Remote

/-! The failures of a store that is reached over HTTP.

A caller of the store is to meet one family of failures for loading and one for saving. Two families
that the retry policy knows, lost connections and time limits of the machine, have no wording in the
store, and neither has a delay that has grown out of range. So what a call ends with is told by the
last of its attempts. -/

namespace DeferredSave

/-! ### Families -/

namespace FailureKind

/-- The families of the machine for which the store has no wording. -/
def isUntold (k : FailureKind) : Bool := k.isA .connection || k.isA .timedOut

/-- The families that the store puts into its own terms. -/
def isTold (k : FailureKind) : Bool := k = .circuitOpen || k.isA .http || k.isA .value

theorem isTold_eq_not_isUntold {k : FailureKind}
    (h : k.isA .http = true ∨ transient.any k.isA = true) : k.isTold = !k.isUntold := by
  cases k <;> first | rfl | exact absurd h (by decide)

theorem not_isA_settings_of_transient {k : FailureKind}
    (h : k.isA .http = true ∨ transient.any k.isA = true) : k.isA .settings = false := by
  cases k <;> first | rfl | exact absurd h (by decide)

theorem isA_settings_of_isA_fetch {k : FailureKind} (h : k.isA .fetch = true) :
    k.isA .settings = true := by
  cases k <;> first | rfl | exact absurd h (by decide)

theorem isA_settings_of_isA_save {k : FailureKind} (h : k.isA .save = true) :
    k.isA .settings = true := by
  cases k <;> first | rfl | exact absurd h (by decide)

end FailureKind

namespace Failure

/-- Whether a failure can happen on the way to a server: it is one of HTTP, or of a family that the
retry policy knows to be gone after a while. -/
def OnTheWay (f : Failure) : Prop :=
  f.kind.isA .http = true ∨ FailureKind.transient.any f.kind.isA = true

theorem isSome_misfit? (f : Failure) : f.misfit?.isSome = f.kind.isA .value := by
  unfold misfit?
  cases h : f.kind.isA .value with
  | false => rfl
  | true => simp only [Bool.not_true, Bool.false_eq_true, ↓reduceIte]; split <;> rfl

end Failure

/-- A delay that is out of range has a failure of arithmetic. -/
theorem RetryPolicy.isA_arithmetic_of_outOfRange {p : RetryPolicy} {n : Int} {kind : FailureKind}
    (h : p.outOfRange? n = some kind) : kind.isA .arithmetic = true := by
  unfold outOfRange? at h
  split at h
  · rw [← Option.some.inj h]; rfl
  · split at h
    · cases h
    · rw [← Option.some.inj h]; rfl

namespace RemoteStore

variable {σ α : Type}

/-- Whether a call ended with an answer, or with a failure of a family. -/
def Speaks (family : FailureKind) (result : Except Failure α) : Prop :=
  ∀ f, result = .error f → f.kind.isA family = true

instance (family : FailureKind) (result : Except Failure α) : Decidable (Speaks family result) :=
  match result with
  | .ok _ => .isTrue nofun
  | .error f => decidable_of_iff (f.kind.isA family = true) (by simp [Speaks])

/-! ### The wording of a failure -/

namespace Wording

/-- A wording whose failures are of one family of the store's own. -/
structure Of (w : Wording) (family : FailureKind) : Prop where
  kind : ∀ message code? misfit?, (w.fail message code? misfit?).kind = family
  own : family = .fetch ∨ family = .save

theorem of_fetchWording : fetchWording.Of .fetch := ⟨fun _ _ _ => rfl, .inl rfl⟩

theorem of_saveWording : saveWording.Of .save := ⟨fun _ _ _ => rfl, .inr rfl⟩

variable {w : Wording} {family : FailureKind}

theorem Of.isA (hw : w.Of family) (message : String) (code? : Option Int)
    (misfit? : Option Misfit) : (w.fail message code? misfit?).kind.isA family = true := by
  rw [hw.kind]
  rcases hw.own with rfl | rfl <;> rfl

theorem Of.not_isA (hw : w.Of family) {k : FailureKind} (h : k.isA .settings = false) :
    k.isA family = false := by
  rcases hw.own with rfl | rfl
  · exact Bool.eq_false_iff.2 fun hk => by simp [FailureKind.isA_settings_of_isA_fetch hk] at h
  · exact Bool.eq_false_iff.2 fun hk => by simp [FailureKind.isA_settings_of_isA_save hk] at h

/-- A failure that is not the store's own already becomes so exactly if there is a wording for its
family; without one it is passed on as it is. -/
theorem Of.restate_isA (hw : w.Of family) {f : Failure} (h : f.kind.isA .settings = false) :
    (w.restate f).kind.isA family = f.kind.isTold := by
  unfold restate
  split
  · exact hw.isA ..
  · split
    · next hk => simp [FailureKind.isTold, hk, hw.isA]
    · next hk =>
      have hm := f.isSome_misfit?
      split
      · next m he => simp_all [FailureKind.isTold, misfit, hw.isA]
      · next he => simp_all [FailureKind.isTold, hw.not_isA h]

end Wording

/-! ### Attempts -/

/-- An attempt fails with what happens on the way, or because of the token. -/
theorem attempt_failure {send : Sending σ}
    (hsend : ∀ t r s f, (send t r s).2 = .error f → f.OnTheWay) {r : ServerRequest} {t : Rat}
    {s : σ} {f : Failure} (h : (attempt send r t s).2 = .error f) :
    f.OnTheWay ∨ f = .tokenNotAscii := by
  unfold attempt at h
  split at h
  · exact .inr (Except.error.inj h).symm
  · split at h
    · split at h
      · cases h
      · exact .inl (.inl (by rw [← Except.error.inj h]; rfl))
    · exact .inl (.inl (by rw [← Except.error.inj h]; rfl))
    · next hs =>
      rw [← Except.error.inj h]
      exact .inl (hsend t r s _ (by rw [hs]))

/-- The failure of an attempt has a wording unless it is of one of the two families without. -/
theorem restate_attempt_isA {w : Wording} {family : FailureKind} (hw : w.Of family) {f : Failure}
    (h : f.OnTheWay ∨ f = .tokenNotAscii) :
    (w.restate f).kind.isA family = !f.kind.isUntold := by
  rcases h with h | rfl
  · rw [hw.restate_isA (FailureKind.not_isA_settings_of_transient h),
      FailureKind.isTold_eq_not_isUntold h]
  · exact hw.restate_isA rfl

/-- A delay that is out of range has no wording. -/
theorem restate_outOfRange_isA {w : Wording} {family : FailureKind} (hw : w.Of family)
    {p : RetryPolicy} {n : Int} {kind : FailureKind} (h : p.outOfRange? n = some kind) :
    (w.restate (.plain kind none)).kind.isA family = false := by
  have hk := RetryPolicy.isA_arithmetic_of_outOfRange h
  rw [hw.restate_isA] <;> simp only [Failure.kind] <;>
    cases kind <;> first | rfl | exact absurd hk (by decide)

/-! ### Calls -/

/-- A call that the breaker lets through ends in a failure for which the store has no wording: one
of its attempts fails, and either no other follows and the failure is of such a family, or another
would follow and the delay before it is out of range. -/
def Slips (s : RemoteStore) (send : Sending σ) (u : Draws) (r : ServerRequest) (state : σ)
    (breaker : Breaker) (now : Rat) : Prop :=
  (breaker.check now).2 = .ok () ∧
    ∃ n state' t f, Attempted s.policy u (attempt send r) state now n state' t ∧
      (attempt send r t state').2 = .error f ∧
      (f.kind.isUntold = true ∧ ¬ s.policy.Again n f ∨
        s.policy.Again n f ∧ s.policy.outOfRange? n ≠ none)

section Call

variable {send : Sending σ} {s : RemoteStore} {u : Draws} {r : ServerRequest} {state : σ}
  {breaker : Breaker} {now : Rat} {w : Wording} {family : FailureKind}

theorem call_result_of_error (reader : Reader α) {f : Failure}
    (h : (runCall s.policy u (attempt send r) state (some breaker) now).result = .error f) :
    (s.call send u w r reader state breaker now).result = .error (w.restate f) := by
  simp [call, h]

theorem call_speaks_of_ok (hw : w.Of family) (reader : Reader α) {response : ServerResponse}
    (h : (runCall s.policy u (attempt send r) state (some breaker) now).result = .ok response) :
    Speaks family (s.call send u w r reader state breaker now).result := by
  intro f hf
  simp only [call, h] at hf
  cases hread : response.read reader with
  | ok a =>
    rw [hread] at hf
    cases hf
  | error m =>
    rw [hread] at hf
    rw [← Except.error.inj hf]
    exact hw.isA ..

theorem call_speaks_of_error_iff (reader : Reader α) {f : Failure}
    (h : (runCall s.policy u (attempt send r) state (some breaker) now).result = .error f) :
    Speaks family (s.call send u w r reader state breaker now).result
      ↔ (w.restate f).kind.isA family = true := by
  simp [Speaks, call_result_of_error reader h]

/-- A call that slips ends in no terms of the store. -/
theorem Slips.not_speaks (hw : w.Of family)
    (hsend : ∀ t r s f, (send t r s).2 = .error f → f.OnTheWay) (reader : Reader α)
    (h : s.Slips send u r state breaker now) :
    ¬ Speaks family (s.call send u w r reader state breaker now).result := by
  obtain ⟨hb, n, state', t, f, hmade, hf, hend⟩ := h
  have hp : Breaker.Passes (some breaker) now := fun b h => Option.some.inj h ▸ hb
  intro hspeaks
  rcases hend with ⟨hu, hlast⟩ | ⟨hagain, hr⟩
  · -- the call ends with the failure of the attempt itself
    obtain ⟨_, he⟩ := runCall_eq hp hmade
      (by rw [hf]; exact CallPhase.settle_last (α := ServerResponse) _ _ _ _ _ hlast)
    rw [call_speaks_of_error_iff reader (by rw [he]),
      restate_attempt_isA hw (attempt_failure hsend hf), hu] at hspeaks
    cases hspeaks
  · -- the call ends with the failure to reckon the delay
    obtain ⟨kind, hkind⟩ := Option.ne_none_iff_exists'.1 hr
    have hsettled := CallPhase.settle_again (α := ServerResponse) _ (u.after n) n
      (Breaker.passed (some breaker) now) t hagain
    simp only [hkind] at hsettled
    obtain ⟨_, he⟩ := runCall_eq hp hmade (by rw [hf]; exact hsettled)
    rw [call_speaks_of_error_iff reader (by rw [he]), restate_outOfRange_isA hw hkind] at hspeaks
    cases hspeaks

theorem call_speaks_of_refusal (hw : w.Of family) (hb : (breaker.check now).2 ≠ .ok ())
    (reader : Reader α) :
    Speaks family (s.call send u w r reader state breaker now).result := by
  obtain ⟨o, ho⟩ := runCall_of_refusal s.policy u (attempt send r) state hb
  exact (call_speaks_of_error_iff reader (by rw [ho])).2 (hw.restate_isA rfl)

/-- A call that does not slip ends in the terms of the store, whether it is answered or not. -/
theorem call_speaks_of_not_slips (hw : w.Of family)
    (hsend : ∀ t r s f, (send t r s).2 = .error f → f.OnTheWay) (reader : Reader α)
    (hb : (breaker.check now).2 = .ok ()) (h : ¬ s.Slips send u r state breaker now) :
    Speaks family (s.call send u w r reader state breaker now).result := by
  have hp : Breaker.Passes (some breaker) now := fun b h => Option.some.inj h ▸ hb
  obtain ⟨n, state', t, hmade, -, -, hsettled⟩ := runCall_endedAt s.policy u
    (attempt send r) state hp
  cases hf : (attempt send r t state').2 with
  | ok response =>
    simp only [hf, CallPhase.settle_ok, Prod.mk.injEq, CallPhase.ended.injEq] at hsettled
    exact call_speaks_of_ok hw reader hsettled.2.symm
  | error f =>
    rw [hf] at hsettled
    by_cases ha : s.policy.Again n f
    · have hr : s.policy.outOfRange? n = none :=
        Decidable.byContradiction fun hr => h ⟨hb, n, state', t, f, hmade, hf, .inr ⟨ha, hr⟩⟩
      simp [CallPhase.settle_again _ _ _ _ _ ha, hr] at hsettled
    · simp only [CallPhase.settle_last _ _ _ _ _ ha, Prod.mk.injEq, CallPhase.ended.injEq]
        at hsettled
      rw [call_speaks_of_error_iff reader hsettled.2.symm,
        restate_attempt_isA hw (attempt_failure hsend hf)]
      cases hu : f.kind.isUntold with
      | false => rfl
      | true => exact absurd ⟨hb, n, state', t, f, hmade, hf, .inl ⟨hu, ha⟩⟩ h

/-- A call ends in the store's own terms exactly if it does not slip. -/
theorem call_speaks_iff (hw : w.Of family)
    (hsend : ∀ t r s f, (send t r s).2 = .error f → f.OnTheWay) (reader : Reader α) :
    Speaks family (s.call send u w r reader state breaker now).result
      ↔ ¬ s.Slips send u r state breaker now := by
  by_cases hb : (breaker.check now).2 = .ok ()
  · exact ⟨fun hspeaks hslips => hslips.not_speaks hw hsend reader hspeaks,
      call_speaks_of_not_slips hw hsend reader hb⟩
  · exact iff_of_true (call_speaks_of_refusal hw hb reader) fun hslips => hb hslips.1

end Call

/-! ### Loading and saving -/

/-- The updates that a batch stands for. -/
def asked (batch : Batch) : List Update := batch.entries.map fun (key, value) => ⟨key, value⟩

/-- The request that stores a batch. -/
def saveRequest (s : RemoteStore) (batch : Batch) : ServerRequest :=
  s.request "PATCH" (some (Update.requestJson (asked batch)))

theorem update_of_keys {s : RemoteStore} {batch : Batch} (h : ∀ key ∈ batch.keys, key ≠ "")
    (send : Sending σ) (u : Draws) (state : σ) (breaker : Breaker) (now : Rat) :
    s.update send u batch state breaker now =
      s.call send u saveWording (s.saveRequest batch) Setting.updatedReader state breaker now := by
  have hfind : batch.entries.find? (·.1 = "") = none := by
    simpa [Batch.keys] using h
  simp [update, Batch.updates, hfind, saveRequest, asked]

theorem update_of_empty_key {s : RemoteStore} {batch : Batch} (h : "" ∈ batch.keys)
    (send : Sending σ) (u : Draws) (state : σ) (breaker : Breaker) (now : Rat) :
    ∃ issues, (s.update send u batch state breaker now).result = .error (.invalid issues) := by
  have hfind : (batch.entries.find? (·.1 = "")).isSome := by
    simpa [Batch.keys] using h
  obtain ⟨e, he⟩ := Option.isSome_iff_exists.1 hfind
  simp [update, Batch.updates, he, Checked.fault, Checked.below]

/-- Loading ends with a catalog or a failure to load, and saving with the rows or a failure to save,
exactly if no attempt slips and no key of the batch is empty. -/
theorem speaks_own_terms_iff (s : RemoteStore) {send : Sending σ}
    (hsend : ∀ t r s f, (send t r s).2 = .error f → f.OnTheWay) (u : Draws) (batch : Batch)
    (state : σ) (breaker : Breaker) (now : Rat) :
    (Speaks .fetch (s.fetch send u state breaker now).result
        ↔ ¬ s.Slips send u (s.request "GET" none) state breaker now) ∧
      (Speaks .save (s.update send u batch state breaker now).result
        ↔ (∀ key ∈ batch.keys, key ≠ "") ∧
          ¬ s.Slips send u (s.saveRequest batch) state breaker now) := by
  refine ⟨call_speaks_iff Wording.of_fetchWording hsend _, ?_⟩
  by_cases hkeys : ∀ key ∈ batch.keys, key ≠ ""
  · rw [update_of_keys hkeys, call_speaks_iff Wording.of_saveWording hsend]
    exact ⟨fun h => ⟨hkeys, h⟩, And.right⟩
  · have hempty : "" ∈ batch.keys :=
      Decidable.byContradiction fun h => hkeys fun key hk he => h (he ▸ hk)
    obtain ⟨issues, hi⟩ := update_of_empty_key (s := s) hempty send u state breaker now
    refine iff_of_false (fun hspeaks => ?_) fun h => hkeys h.1
    exact absurd (hspeaks _ hi) (show ¬ FailureKind.value.isA .save = true by decide)

/-- A store at a fixed address, with a retry policy. -/
def local8080 (policy : RetryPolicy) : RemoteStore :=
  { baseUrl := "http://localhost:8080", token := none, timeout := .ofInt 30, policy }

/-- A policy whose delays are out of range after the third attempt. -/
def steep : RetryPolicy := { growth := Rat.zpow 2 600 }

/-- A server that is always overloaded. -/
def overloaded : Sending Unit := fun _ _ s => (s, .ok ⟨503, []⟩)

/-- A way to a server on which every connection is lost. -/
def cutOff : Sending Unit := fun _ _ s => (s, .error (.plain .connection (some "boom")))

/-- An overloaded server, tried again after delays in range, is told in the store's own terms. -/
theorem overloaded_speaks_own_terms :
    (∀ t r s f, (overloaded t r s).2 = .error f → f.OnTheWay) ∧
      ¬ (local8080 {}).Slips overloaded (1 / 2 : Rat) ((local8080 {}).request "GET" none) ()
        (.new service breakerPolicy) 0 := by
  have hsend : ∀ t r s f, (overloaded t r s).2 = .error f → f.OnTheWay := fun _ _ _ _ h => nomatch h
  have hspeaks : Speaks .fetch
      ((local8080 {}).fetch overloaded (1 / 2 : Rat) () (.new service breakerPolicy) 0).result := by
    decide +kernel
  exact ⟨hsend, (speaks_own_terms_iff _ hsend _ ⟨[], []⟩ () _ 0).1.1 hspeaks⟩

/-- What ends otherwise: a connection that the machine lost, an empty key, and a delay after the
third attempt that is out of range. -/
theorem failures_escape :
    ¬ Speaks .fetch
        ((local8080 { maxRetries := 0 }).fetch cutOff (1 / 2 : Rat) ()
          (.new service breakerPolicy) 0).result ∧
      ¬ Speaks .save
        ((local8080 {}).update overloaded (1 / 2 : Rat) (.ofEntries [("", "x")]) ()
          (.new service breakerPolicy) 0).result ∧
      ¬ Speaks .fetch
        ((local8080 steep).fetch overloaded (1 / 2 : Rat) ()
          (.new service breakerPolicy) 0).result := by
  decide +kernel

end RemoteStore

end DeferredSave
