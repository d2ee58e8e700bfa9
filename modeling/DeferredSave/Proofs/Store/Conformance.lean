import DeferredSave.Proofs.Course.Basic
import DeferredSave.Proofs.Instant.Calendar
import DeferredSave.Proofs.Retry.Range
import DeferredSave.Proofs.Store.Memory
import DeferredSave.Proofs.Store.Remote
import DeferredSave.Proofs.Store.Wire

/-! A store that is reached over HTTP is as good as one in memory.

A server that keeps a store in memory is visited by a client. On the way to it a visit may meet
mishaps, after which the client tries again. What the client is answered is what the store in memory
answers at the moments when the server is reached, as long as the delays between the attempts of a
visit are in range and the client has a token that can be sent. -/

namespace DeferredSave

/-! ### Calls and answers -/

/-- What a store answers to a call. -/
inductive StoreResult where
  | catalog (c : Categories)
  | rows (ss : List Setting)
deriving DecidableEq

/-- The answer of a store in memory. -/
def MemoryStore.answer (m : MemoryStore) (now : Stamp) :
    StoreCall → MemoryStore × Except Failure StoreResult
  | .fetch => (m, .ok (.catalog m.fetch))
  | .update batch => ((m.update now batch).1, (m.update now batch).2.map .rows)

namespace RemoteStore

variable {σ α β : Type}

def End.map (f : α → β) (e : End σ α) : End σ β :=
  { result := e.result.map f, state := e.state, breaker := e.breaker, now := e.now }

/-- The answer of a store that is reached over HTTP. -/
def answer (s : RemoteStore) (send : Sending σ) (u : Draws) (state : σ) (breaker : Breaker)
    (now : Rat) : StoreCall → End σ StoreResult
  | .fetch => (s.fetch send u state breaker now).map .catalog
  | .update batch => (s.update send u batch state breaker now).map .rows

end RemoteStore

/-! ### The server -/

/-- A server with its store, and what will happen to the next requests on their way to it. -/
structure Server where
  store : MemoryStore
  mishaps : List (Except Failure ServerResponse)

namespace Server

/-- The updates that the body of a request asks for. -/
def readUpdates (bytes : List UInt8) : Option (List Update) :=
  match Json.ofBytes bytes with
  | .error _ => none
  | .ok j =>
    match Update.requestReader j with
    | .bad _ => none
    | .ok us => some us

/-- Answers a request that has reached the server. One whose body is not understood is refused. -/
def respond (ask answer : Json.Writer) (now : Stamp) (r : ServerRequest) (m : MemoryStore) :
    MemoryStore × ServerResponse :=
  if r.method = "GET" then (m, ⟨200, answer.write m.fetch.toJson⟩)
  else if r.method ≠ "PATCH" then (m, ⟨405, []⟩)
  else
    match r.body.bind fun body => readUpdates (ask.write body) with
    | none => (m, ⟨422, []⟩)
    | some us =>
      match m.update now (.ofEntries (us.map fun u => (u.key, u.value))) with
      | (m, .ok ss) => (m, ⟨200, answer.write (Setting.updatedJson ss)⟩)
      | (m, .error f) => (m, ⟨400, answer.write (.object [("message", .text f.message)])⟩)

/-- What becomes of a request: the next mishap, or the answer of the server by its clock. -/
def serve (ask answer : Json.Writer) (clock : Rat → Stamp) : RemoteStore.Sending Server :=
  fun now r server =>
    match server.mishaps with
    | mishap :: rest => ({ server with mishaps := rest }, mishap)
    | [] =>
      let (m, response) := respond ask answer (clock now) r server.store
      ({ server with store := m }, .ok response)

end Server

/-! ### Visits -/

/-- A visit of a client to a server. -/
structure Visit where
  /-- The time since the visit before. -/
  pause : Rat
  call : StoreCall
  /-- What happens to the requests before one of them reaches the server. -/
  mishaps : List (Except Failure ServerResponse)
  draws : Draws

namespace RetryPolicy

/-- Whether an outcome of a request is a failure after which a call is tried again. -/
def Transient (p : RetryPolicy) : Except Failure ServerResponse → Prop
  | .ok response => Http.isSuccess response.status = false ∧ response.status ∈ p.statusCodes
  | .error f => p.retries f = true

instance (p : RetryPolicy) (outcome : Except Failure ServerResponse) :
    Decidable (p.Transient outcome) :=
  match outcome with
  | .ok _ => inferInstanceAs (Decidable (_ ∧ _))
  | .error _ => inferInstanceAs (Decidable (_ = true))

end RetryPolicy

/-- A batch is to name something, and nothing but keys that the store knows. -/
def StoreCall.Known (m : MemoryStore) : StoreCall → Prop
  | .fetch => True
  | .update batch =>
    batch.entries ≠ [] ∧ ∀ key ∈ batch.keys, key ≠ "" ∧ key ∈ Entries.keys m.rows

instance (m : MemoryStore) (c : StoreCall) : Decidable (c.Known m) :=
  match c with
  | .fetch => .isTrue trivial
  | .update _ => inferInstanceAs (Decidable (_ ∧ _))

/-- A visit that meets no more mishaps than its client bears. -/
structure Visit.Proper (v : Visit) (p : RetryPolicy) (m : MemoryStore) : Prop where
  known : v.call.Known m
  few : v.mishaps.length ≤ p.maxRetries
  transient : ∀ mishap ∈ v.mishaps, p.Transient mishap

instance (v : Visit) (p : RetryPolicy) (m : MemoryStore) : Decidable (v.Proper p m) :=
  decidable_of_iff
    (v.call.Known m ∧ v.mishaps.length ≤ p.maxRetries ∧ ∀ mishap ∈ v.mishaps, p.Transient mishap)
    ⟨fun h => ⟨h.1, h.2.1, h.2.2⟩, fun h => ⟨h.known, h.few, h.transient⟩⟩

/-- The answers to the calls of some visits, and the store after them, where each call is made at
the moment when the client of the server would reach it. -/
def MemoryStore.tour (p : RetryPolicy) (clock : Rat → Stamp) :
    List Visit → MemoryStore → Rat → List (Except Failure StoreResult) × MemoryStore
  | [], m, _ => ([], m)
  | v :: vs, m, now =>
    let reached := p.arrival v.draws (now + v.pause) v.mishaps.length
    let (m, result) := m.answer (clock reached) v.call
    let (results, m) := MemoryStore.tour p clock vs m reached
    (result :: results, m)

theorem MemoryStore.tour_cons (p : RetryPolicy) (clock : Rat → Stamp) (v : Visit)
    (vs : List Visit) (m : MemoryStore) (now : Rat) :
    MemoryStore.tour p clock (v :: vs) m now =
      let reached := p.arrival v.draws (now + v.pause) v.mishaps.length
      let rest := MemoryStore.tour p clock vs (m.answer (clock reached) v.call).1 reached
      ((m.answer (clock reached) v.call).2 :: rest.1, rest.2) := rfl

namespace RemoteStore

/-- The answers to the visits of a client, and the store of the server after them. -/
def tour (s : RemoteStore) (ask answer : Json.Writer) (clock : Rat → Stamp) :
    List Visit → MemoryStore → Breaker → Rat → List (Except Failure StoreResult) × MemoryStore
  | [], m, _, _ => ([], m)
  | v :: vs, m, breaker, now =>
    let e := s.answer (Server.serve ask answer clock) v.draws ⟨m, v.mishaps⟩ breaker
      (now + v.pause) v.call
    let (results, m) := s.tour ask answer clock vs e.state.store e.breaker e.now
    (e.result :: results, m)

/-- Whether the token of a store can be sent. -/
def Sendable (s : RemoteStore) : Prop := ∀ token ∈ s.token, ∀ c ∈ token.toList, c.toNat ≤ 0x7F

end RemoteStore

/-! ### The store of the server -/

namespace MemoryStore

variable {m : MemoryStore} {now : Stamp}

/-- Every row that is held has a valid stamp. -/
def Stamped (m : MemoryStore) : Prop := ∀ e ∈ m.rows, e.2.setting.updatedAt.Valid

theorem stamped_ofCategories {seed : Categories} (h : ∀ e ∈ seed, ∀ s ∈ e.2, s.updatedAt.Valid)
    (actor : Option String) : (ofCategories seed actor).Stamped := by
  intro e he
  obtain ⟨⟨category, settings⟩, hc, hsetting⟩ := List.mem_flatMap.1 (Entries.mem_of_mem_ofList he)
  obtain ⟨s, hs, rfl⟩ := List.mem_map.1 hsetting
  exact h _ hc s hs

theorem Stamped.fetch (h : m.Stamped) : ∀ e ∈ m.fetch, ∀ s ∈ e.2, s.updatedAt.Valid := by
  intro e he s hs
  obtain ⟨key, row, hrow, rfl⟩ := mem_rows_fetch.1 (List.mem_flatMap.2 ⟨e, he, hs⟩)
  exact h _ hrow

theorem Stamped.updateOne (h : m.Stamped) (hnow : now.Valid) (key value : String) :
    (m.updateOne now key value).1.Stamped ∧
      ∀ s ∈ (m.updateOne now key value).2, s.updatedAt.Valid := by
  unfold MemoryStore.updateOne
  split
  · exact ⟨h, nofun⟩
  · refine ⟨fun e he => ?_, fun s hs => ?_⟩
    · rcases Entries.mem_put he with rfl | he
      · exact hnow
      · exact h e he
    · obtain rfl := Option.some.inj hs
      exact hnow

theorem Stamped.updateAll (h : m.Stamped) (hnow : now.Valid) (entries : List (String × String)) :
    (m.updateAll now entries).1.Stamped ∧
      ∀ s ∈ (m.updateAll now entries).2, s.updatedAt.Valid := by
  induction entries generalizing m with
  | nil => exact ⟨h, nofun⟩
  | cons e rest ih =>
    obtain ⟨hone, hset⟩ := h.updateOne hnow e.1 e.2
    obtain ⟨hall, hrest⟩ := ih hone
    refine ⟨hall, fun s hs => ?_⟩
    simp only [MemoryStore.updateAll, List.mem_append, Option.mem_toList] at hs
    rcases hs with hs | hs
    · exact hset s hs
    · exact hrest s hs

/-- A call that names what is known is answered; the keys stay, and so does that all stamps are
valid. -/
theorem answer_of_known (hm : m.Stamped) (hnow : now.Valid) {c : StoreCall} (h : c.Known m) :
    (∃ a, (m.answer now c).2 = .ok a) ∧ (m.answer now c).1.Stamped ∧
      Entries.keys (m.answer now c).1.rows = Entries.keys m.rows := by
  cases c with
  | fetch => exact ⟨⟨_, rfl⟩, hm, rfl⟩
  | update batch =>
    simp only [answer, update_of_known h.1 (fun key hkey => (h.2 key hkey).2) now]
    exact ⟨⟨_, rfl⟩, (hm.updateAll hnow _).1, keys_updateAll ..⟩

end MemoryStore

theorem StoreCall.Known.of_keys {m m' : MemoryStore} {c : StoreCall}
    (hkeys : Entries.keys m'.rows = Entries.keys m.rows) (h : c.Known m) : c.Known m' := by
  cases c with
  | fetch => trivial
  | update batch => exact ⟨h.1, fun key hkey => ⟨(h.2 key hkey).1, hkeys ▸ (h.2 key hkey).2⟩⟩

/-! ### Attempts -/

namespace RemoteStore

section Attempts

variable (s : RemoteStore) (ask answer : Json.Writer) (clock : Rat → Stamp) {r : ServerRequest}
  {m m' : MemoryStore} {mishaps : List (Except Failure ServerResponse)} {u : Draws} {now : Rat}

/-- Whether the header of a request can be sent. -/
abbrev Plain (r : ServerRequest) : Prop :=
  (r.authorization.any fun a => a.toList.any fun c => 0x7F < c.toNat) = false

theorem plain_request_iff (method : String) (body : Option Json) :
    Plain (s.request method body) ↔ s.Sendable := by
  cases htoken : s.token with
  | none => simp [Plain, request, Sendable, htoken]
  | some token =>
    by_cases hempty : token = ""
    · have hauth : (s.request method body).authorization = none := by
        rw [request, htoken, hempty]
        rfl
      simp [Plain, hauth, Sendable, htoken, hempty]
    · have hauth : (s.request method body).authorization = some ("Bearer " ++ token) := by
        simp only [request, htoken]
        rw [Option.filter_eq_some_iff.2 ⟨rfl, by simpa using hempty⟩, Option.map_some]
      have hscheme : "Bearer ".toList.any (fun c => decide (0x7F < c.toNat)) = false := by decide
      simp only [Plain, hauth, Sendable, htoken, Option.any_some, String.toList_append,
        List.any_append, hscheme, Bool.false_or]
      simp

theorem attempt_unsendable (hr : ¬ Plain r) (server : Server) :
    (attempt (Server.serve ask answer clock) r now server).2 = .error .tokenNotAscii := by
  have : (r.authorization.any fun a => a.toList.any fun c => 0x7F < c.toNat) = true := by
    simpa [Plain] using hr
  simp [attempt, this]

theorem attempt_mishap (hr : Plain r) {mishap : Except Failure ServerResponse}
    (h : s.policy.Transient mishap) (m : MemoryStore)
    (rest : List (Except Failure ServerResponse)) (now : Rat) :
    ∃ f, attempt (Server.serve ask answer clock) r now ⟨m, mishap :: rest⟩
        = (⟨m, rest⟩, .error f) ∧ s.policy.retries f = true := by
  cases mishap with
  | ok response =>
    refine ⟨.status response.status response.detail, ?_, by simpa [RetryPolicy.retries] using h.2⟩
    simp [attempt, hr, Server.serve, h.1]
  | error f =>
    cases f with
    | status code message =>
      exact ⟨.status code (Http.reasonPhrase code), by simp [attempt, hr, Server.serve], h⟩
    | _ => exact ⟨_, by simp only [attempt, hr, Server.serve]; rfl, h⟩

theorem attempt_reached (hr : Plain r) {response : ServerResponse}
    (h : Server.respond ask answer (clock now) r m = (m', response))
    (hok : Http.isSuccess response.status = true) :
    attempt (Server.serve ask answer clock) r now ⟨m, []⟩ = (⟨m', []⟩, .ok response) := by
  simp [attempt, hr, Server.serve, h, hok]

variable (m u now) in
/-- The attempts that the mishaps of a visit make fail. -/
theorem attempted_mishaps (hr : Plain r) (hfew : mishaps.length ≤ s.policy.maxRetries)
    (htransient : ∀ mishap ∈ mishaps, s.policy.Transient mishap) {n : Nat}
    (hn : n ≤ mishaps.length) (hrange : s.policy.InRange n) :
    Attempted s.policy u (attempt (Server.serve ask answer clock) r) ⟨m, mishaps⟩ now n
      ⟨m, mishaps.drop n⟩ (s.policy.arrival u now n) := by
  induction n with
  | zero => exact .first
  | succ n ih =>
    have hmade := ih (by omega) fun k hk => hrange k (by omega)
    have hcons : mishaps.drop n = mishaps[n] :: mishaps.drop (n + 1) :=
      List.drop_eq_getElem_cons (by omega)
    obtain ⟨f, hf, hretried⟩ := attempt_mishap s ask answer clock hr
      (htransient _ (List.getElem_mem (by omega : n < mishaps.length))) m (mishaps.drop (n + 1))
      (s.policy.arrival u now n)
    rw [← hcons] at hf
    have hagain := hmade.again (by rw [hf]) ⟨by omega, hretried⟩ (hrange n (by omega))
    rwa [hf] at hagain

end Attempts

/-! ### Calls -/

section Calls

variable {α : Type} {s : RemoteStore} {ask answer : Json.Writer} {clock : Rat → Stamp}
  {r : ServerRequest} {m m' : MemoryStore} {mishaps : List (Except Failure ServerResponse)}
  {u : Draws} {now : Rat} {breaker : Breaker} {w : Wording} {reader : Reader α}

theorem passes_of_closed (hb : breaker.circuit = .closed) (now : Rat) :
    Breaker.Passes (some breaker) now ∧ Breaker.passed (some breaker) now = some breaker := by
  have hcheck : breaker.check now = (breaker, .ok ()) := by simp [Breaker.check, hb]
  constructor
  · rintro b hmem
    obtain rfl := Option.some.inj hmem
    rw [hcheck]
  · simp [Breaker.passed, hcheck]

/-- After its mishaps a call is answered with what the server writes when it is reached. -/
theorem call_after_mishaps (hr : Plain r) (hb : breaker.circuit = .closed)
    (hfew : mishaps.length ≤ s.policy.maxRetries)
    (htransient : ∀ mishap ∈ mishaps, s.policy.Transient mishap)
    (hrange : s.policy.InRange mishaps.length) {j : Json} (hj : j.Textual) {a : α}
    (hread : reader j = .ok a)
    (hrespond : Server.respond ask answer (clock (s.policy.arrival u now mishaps.length)) r m
      = (m', ⟨200, answer.write j⟩)) :
    s.call (Server.serve ask answer clock) u w r reader ⟨m, mishaps⟩ breaker now
      = { result := .ok a, state := ⟨m', []⟩, breaker := breaker.recordSuccess
          now := s.policy.arrival u now mishaps.length } := by
  obtain ⟨hp, hpassed⟩ := passes_of_closed hb now
  have hmade := attempted_mishaps s ask answer clock m u now hr hfew
    htransient (Nat.le_refl _) hrange
  rw [List.drop_length] at hmade
  -- no mishap is left, so the next attempt reaches the server and ends the call
  have hreached := attempt_reached ask answer clock hr hrespond rfl
  obtain ⟨_, he⟩ := runCall_eq hp hmade (by rw [hreached, CallPhase.settle_ok])
  have hbody : (ServerResponse.read reader ⟨200, answer.write j⟩) = .ok a := by
    simp only [ServerResponse.read, answer.readBack j hj, hread]
    rfl
  simp only [call, he, hreached, hpassed, hbody]
  rfl

/-- A call that is answered had a header that can be sent, and all its delays were in range. -/
theorem inRange_of_call_ok (hb : breaker.circuit = .closed)
    (hfew : mishaps.length ≤ s.policy.maxRetries)
    (htransient : ∀ mishap ∈ mishaps, s.policy.Transient mishap) {a : α}
    (h : (s.call (Server.serve ask answer clock) u w r reader ⟨m, mishaps⟩ breaker now).result
      = .ok a) :
    Plain r ∧ s.policy.InRange mishaps.length := by
  obtain ⟨n, server, t, hmade, -, -, hsettled⟩ := runCall_endedAt s.policy u
    (attempt (Server.serve ask answer clock) r) ⟨m, mishaps⟩ (passes_of_closed hb now).1
  -- a call that ends with a failed attempt fails, so the last attempt was answered
  have hok : ∃ response, (attempt (Server.serve ask answer clock) r t server).2 = .ok response := by
    cases ho : (attempt (Server.serve ask answer clock) r t server).2 with
    | ok response => exact ⟨response, rfl⟩
    | error f =>
      obtain ⟨f', hf'⟩ := CallPhase.failed_of_settle _ _ _ _ _ (ho ▸ hsettled)
      rw [call_result_of_error reader hf'] at h
      cases h
  obtain ⟨response, hok⟩ := hok
  have hr : Plain r := by
    by_cases hr : Plain r
    · exact hr
    · rw [attempt_unsendable ask answer clock hr] at hok
      cases hok
  refine ⟨hr, fun k hk => hmade.inRange k ?_⟩
  -- an attempt before the last mishap is not answered
  refine Nat.lt_of_lt_of_le hk (Nat.le_of_not_lt fun hn => ?_)
  have hmishap := attempted_mishaps s ask answer clock m u now hr hfew
    htransient (Nat.le_of_lt hn) hmade.inRange
  obtain ⟨rfl, -⟩ := hmade.unique hmishap
  obtain ⟨f, hf, -⟩ := attempt_mishap s ask answer clock hr
    (htransient _ (List.getElem_mem hn)) m (mishaps.drop (n + 1)) t
  rw [List.drop_eq_getElem_cons hn, hf] at hok
  cases hok

/-! ### The two stores -/

variable (ask answer) in
theorem respond_fetch (hr : r.method = "GET") (t : Stamp) :
    Server.respond ask answer t r m = (m, ⟨200, answer.write m.fetch.toJson⟩) := by
  simp [Server.respond, hr]

theorem readUpdates_requestJson (ask : Json.Writer) {us : List Update} (h : ∀ u ∈ us, u.key ≠ "") :
    Server.readUpdates (ask.write (Update.requestJson us)) = some us := by
  simp [Server.readUpdates, ask.readBack _ (Update.textual_requestJson us),
    Update.requestReader_requestJson h]

variable (s ask answer) in
theorem respond_update {batch : Batch} (hne : batch.entries ≠ [])
    (hkeys : ∀ key ∈ batch.keys, key ≠ "" ∧ key ∈ Entries.keys m.rows) (t : Stamp) :
    Server.respond ask answer t (s.saveRequest batch) m
      = ((m.updateAll t batch.entries).1,
          ⟨200, answer.write (Setting.updatedJson (m.updateAll t batch.entries).2)⟩) := by
  have hread : Server.readUpdates (ask.write (Update.requestJson (asked batch)))
      = some (asked batch) := by
    refine readUpdates_requestJson ask fun u hu => ?_
    obtain ⟨e, he, rfl⟩ := List.mem_map.1 hu
    exact (hkeys e.1 (List.mem_map_of_mem he)).1
  have hupdate : m.update t (.ofEntries batch.entries)
      = ((m.updateAll t batch.entries).1, .ok (m.updateAll t batch.entries).2) :=
    MemoryStore.update_of_known hne (fun key hkey => (hkeys key hkey).2) t
  simp only [Server.respond, saveRequest, request, Option.bind_some, hread]
  simp [asked, Function.comp_def, hupdate]

/-- A visit is answered as the store in memory answers when it is reached. -/
theorem answer_of_visit (hs : s.Sendable) (hb : breaker.circuit = .closed) {v : Visit}
    (hv : v.Proper s.policy m) (hrange : s.policy.InRange v.mishaps.length) (hm : m.Stamped)
    (hclock : ∀ t, (clock t).Valid) :
    s.answer (Server.serve ask answer clock) v.draws ⟨m, v.mishaps⟩ breaker now v.call =
      let reached := s.policy.arrival v.draws now v.mishaps.length
      { result := (m.answer (clock reached) v.call).2
        state := ⟨(m.answer (clock reached) v.call).1, []⟩
        breaker := breaker.recordSuccess, now := reached } := by
  obtain ⟨pause, call, mishaps, draws⟩ := v
  obtain ⟨hknown, hfew, htransient⟩ := hv
  cases call with
  | fetch =>
    simp only [RemoteStore.answer, fetch]
    rw [call_after_mishaps ((plain_request_iff s "GET" none).2 hs) hb hfew htransient hrange
      (Categories.textual_toJson (MemoryStore.nodup_keys_fetch m))
      (Categories.reader_toJson hm.fetch) (respond_fetch ask answer rfl _)]
    rfl
  | update batch =>
    obtain ⟨hne, hkeys⟩ := hknown
    have hr : Plain (s.saveRequest batch) := (plain_request_iff s ..).2 hs
    simp only [RemoteStore.answer, update_of_keys fun key hkey => (hkeys key hkey).1]
    rw [call_after_mishaps hr hb hfew htransient hrange
      (Setting.textual_updatedJson _)
      (Setting.updatedReader_updatedJson (hm.updateAll (hclock _) batch.entries).2)
      (respond_update s ask answer hne hkeys _)]
    simp [End.map, MemoryStore.answer, Except.map,
      MemoryStore.update_of_known hne (fun key hkey => (hkeys key hkey).2)]

/-- A visit that is answered at all had a token that can be sent and delays in range. -/
theorem inRange_of_answer_ok (hb : breaker.circuit = .closed) {v : Visit}
    (hv : v.Proper s.policy m) {a : StoreResult}
    (h : (s.answer (Server.serve ask answer clock) v.draws ⟨m, v.mishaps⟩ breaker now
      v.call).result = .ok a) :
    s.Sendable ∧ s.policy.InRange v.mishaps.length := by
  obtain ⟨pause, call, mishaps, draws⟩ := v
  obtain ⟨hknown, hfew, htransient⟩ := hv
  have hmap {β : Type} {f : β → StoreResult} {r : Except Failure β} (h : r.map f = .ok a) :
      ∃ b, r = .ok b := by
    cases r with
    | ok b => exact ⟨b, rfl⟩
    | error f => cases h
  cases call with
  | fetch =>
    obtain ⟨c, hc⟩ := hmap h
    obtain ⟨hr, hrange⟩ := inRange_of_call_ok hb hfew htransient hc
    exact ⟨(plain_request_iff s ..).1 hr, hrange⟩
  | update batch =>
    obtain ⟨ss, hss⟩ := hmap h
    rw [update_of_keys fun key hkey => (hknown.2 key hkey).1] at hss
    obtain ⟨hr, hrange⟩ := inRange_of_call_ok hb hfew htransient hss
    exact ⟨(plain_request_iff s ..).1 hr, hrange⟩

end Calls

/-! ### Tours -/

theorem tour_cons (s : RemoteStore) (ask answer : Json.Writer) (clock : Rat → Stamp) (v : Visit)
    (vs : List Visit) (m : MemoryStore) (breaker : Breaker) (now : Rat) :
    s.tour ask answer clock (v :: vs) m breaker now =
      let e := s.answer (Server.serve ask answer clock) v.draws ⟨m, v.mishaps⟩ breaker
        (now + v.pause) v.call
      let rest := s.tour ask answer clock vs e.state.store e.breaker e.now
      (e.result :: rest.1, rest.2) := rfl

/-- From a store with the keys of the seed, a tour of the server is answered like a tour of its
store, as long as each visit reaches the server. -/
theorem tour_eq_iff {s : RemoteStore} (ask answer : Json.Writer) {clock : Rat → Stamp}
    (hclock : ∀ t, (clock t).Valid) {seed m : MemoryStore}
    (hkeys : Entries.keys m.rows = Entries.keys seed.rows) (hm : m.Stamped) {visits : List Visit}
    (hvisits : ∀ v ∈ visits, v.Proper s.policy seed) {breaker : Breaker}
    (hb : breaker.circuit = .closed) (now : Rat) :
    s.tour ask answer clock visits m breaker now = MemoryStore.tour s.policy clock visits m now ↔
      ∀ v ∈ visits, s.Sendable ∧ s.policy.InRange v.mishaps.length := by
  induction visits generalizing m breaker now with
  | nil => simp [tour, MemoryStore.tour]
  | cons v vs ih =>
    have hv : v.Proper s.policy m :=
      { hvisits v (by simp) with known := (hvisits v (by simp)).known.of_keys hkeys }
    obtain ⟨⟨a, ha⟩, hm', hkeys'⟩ := MemoryStore.answer_of_known hm
      (hclock (s.policy.arrival v.draws (now + v.pause) v.mishaps.length)) hv.known
    rw [tour_cons, MemoryStore.tour_cons, List.forall_mem_cons]
    by_cases hgood : s.Sendable ∧ s.policy.InRange v.mishaps.length
    · -- the visit is answered alike, and keeps what the visits after it need
      have hclosed : breaker.recordSuccess.circuit = .closed := by simp [Breaker.recordSuccess, hb]
      have hrest := ih (hkeys'.trans hkeys) hm' (fun v hv => hvisits v (by simp [hv])) hclosed
        (s.policy.arrival v.draws (now + v.pause) v.mishaps.length)
      rw [answer_of_visit hgood.1 hb hv hgood.2 hm hclock, ← hrest]
      simp [Prod.ext_iff, hgood]
    · -- the store in memory answers the call, so the first answers differ already
      refine iff_of_false (fun heq => hgood ?_) fun h => hgood h.1
      have hhead := (List.cons.inj (Prod.mk.inj heq).1).1
      exact inRange_of_answer_ok hb hv (hhead.trans ha)

/-- With delays that double, and at most 1024 of them, a token that can be sent is all that a tour
takes. -/
theorem tour_eq_of_doubling {s : RemoteStore} (ask answer : Json.Writer) {clock : Rat → Stamp}
    (hclock : ∀ t, (clock t).Valid) {m : MemoryStore} (hm : m.Stamped) {visits : List Visit}
    (hvisits : ∀ v ∈ visits, v.Proper s.policy m) {breaker : Breaker}
    (hb : breaker.circuit = .closed) (hs : s.Sendable) (hdoubles : s.policy.growth = 2)
    (hfew : s.policy.maxRetries ≤ 1024) (now : Rat) :
    s.tour ask answer clock visits m breaker now
      = MemoryStore.tour s.policy clock visits m now := by
  refine (tour_eq_iff ask answer hclock rfl hm hvisits hb now).2 fun v hv => ⟨hs, ?_⟩
  have := (hvisits v hv).few
  exact (RetryPolicy.inRange_iff_of_doubling hdoubles _).2 (by omega)

end RemoteStore

/-- A client of a server that keeps a store in memory is answered exactly as that store answers at
the moments when the server is reached, and leaves it in the same state, if and only if its token
can be sent and the delays after the mishaps of its visits are in range. The rows of the seed may
hold any texts. -/
theorem RemoteStore.agrees_with_memory_iff (s : RemoteStore) (ask answer : Json.Writer)
    {clock : Rat → Stamp} (hclock : ∀ t, (clock t).Valid) {seed : Categories}
    (hseed : ∀ category ∈ seed, ∀ row ∈ category.2, row.updatedAt.Valid) (actor : Option String)
    {visits : List Visit}
    (hvisits : ∀ v ∈ visits, v.Proper s.policy (.ofCategories seed actor)) {breaker : Breaker}
    (hb : breaker.circuit = .closed) (now : Rat) :
    s.tour ask answer clock visits (.ofCategories seed actor) breaker now
        = MemoryStore.tour s.policy clock visits (.ofCategories seed actor) now ↔
      ∀ v ∈ visits, s.Sendable ∧ s.policy.InRange v.mishaps.length :=
  tour_eq_iff ask answer hclock rfl (MemoryStore.stamped_ofCategories hseed actor) hvisits hb now

/-- Settings with texts of any script, and stamps of any offset or none. -/
def polyglot : Categories := [
  ("réseau", [
    ⟨"proxy ☃", "a \"quoted\" text\non two lines 😀", some "où passer",
      ⟨2023, 2, 28, 23, 59, 59, 999999, some (-330)⟩, some "ann"⟩,
    ⟨"délai", "30", none, ⟨1, 1, 1, 0, 0, 0, 0, none⟩, none⟩]),
  ("auth", [⟨"auth_email_enabled", "true", none, .epoch, none⟩])]

/-- A load and a save that meet mishaps, and a load that meets none. -/
def bumpyVisits : List Visit := [
  { pause := 1, call := .fetch, draws := (1 / 2 : Rat)
    mishaps := [.ok ⟨429, []⟩, .error (.plain .connect none)] },
  { pause := 0, call := .update (.ofEntries [("délai", "60 ☃"), ("auth_email_enabled", "false")])
    draws := (1 / 4 : Rat)
    mishaps := [.error (.plain .timedOut none), .ok ⟨503, []⟩, .error (.plain .readTimeout none)] },
  { pause := 5, call := .fetch, draws := (0 : Rat), mishaps := [] }]

/-- The visits with mishaps are answered as if there were none. -/
theorem bumpy_visits_agree :
    (∀ v ∈ bumpyVisits, v.Proper {} (.ofCategories polyglot (some "ann"))) ∧
      (RemoteStore.local8080 {}).tour .oneLine .oneLine Stamp.atClock bumpyVisits
          (.ofCategories polyglot (some "ann"))
          (.new RemoteStore.service RemoteStore.breakerPolicy) 0
        = MemoryStore.tour {} Stamp.atClock bumpyVisits
          (.ofCategories polyglot (some "ann")) 0 := by
  have hstamps : ∀ category ∈ polyglot, ∀ row ∈ category.2, row.updatedAt.Valid := by
    decide +kernel
  have hproper : ∀ v ∈ bumpyVisits, v.Proper {} (.ofCategories polyglot (some "ann")) := by
    decide +kernel
  have hrange : ∀ v ∈ bumpyVisits, ({} : RetryPolicy).InRange v.mishaps.length := by
    decide +kernel
  exact ⟨hproper, (RemoteStore.agrees_with_memory_iff (RemoteStore.local8080 {}) .oneLine .oneLine
    Stamp.valid_atClock hstamps (some "ann") hproper rfl 0).2
      fun v hv => ⟨nofun, hrange v hv⟩⟩

/-- A load that meets three overloads, where the delay before the last attempt is out of range. -/
def overloadedVisit : Visit :=
  { pause := 0, call := .fetch, draws := (1 / 2 : Rat)
    mishaps := List.replicate 3 (.ok ⟨503, []⟩) }

/-- Three mishaps, of which the client bears three, and yet it is not answered like the store. -/
theorem overloaded_visit_disagrees :
    overloadedVisit.Proper RemoteStore.steep (.ofCategories polyglot) ∧
      (RemoteStore.local8080 RemoteStore.steep).tour .oneLine .oneLine Stamp.atClock
          [overloadedVisit] (.ofCategories polyglot)
          (.new RemoteStore.service RemoteStore.breakerPolicy) 0
        ≠ MemoryStore.tour RemoteStore.steep Stamp.atClock [overloadedVisit]
          (.ofCategories polyglot) 0 := by
  refine ⟨by decide +kernel, fun heq => ?_⟩
  have hstamps : ∀ category ∈ polyglot, ∀ row ∈ category.2, row.updatedAt.Valid := by
    decide +kernel
  have hranges := (RemoteStore.tour_eq_iff .oneLine .oneLine Stamp.valid_atClock rfl
    (MemoryStore.stamped_ofCategories hstamps _) (by decide +kernel) rfl 0).1 heq
  exact absurd (hranges overloadedVisit (by simp)).2 (by decide +kernel)

end DeferredSave
