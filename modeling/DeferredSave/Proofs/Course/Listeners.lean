import DeferredSave.Proofs.Course.Basic

/-!
# What listeners leave as it is

An event of the indicator moves it, and then tells the listeners one after the other
(`Engine.fire_cases`). A property of engines that listeners keep while they act holds after they are
told, if it held before (`Engine.Told.keeps`). That they keep it has to be shown for their calls
only, where it may be assumed of the listeners that are told by such a call (`Listening.keeps`).
-/

namespace DeferredSave

variable {ω : Type} {acting : Engine.Acting ω} {P : Engine ω → Prop}
  {admitted admitted' : Engine ω → Call ω → Prop}

/-! ## Keeping a property -/

/-- Telling listeners and letting them act keeps a property of engines. -/
structure Keeps (P : Engine ω → Prop) (acting : Engine.Acting ω) : Prop where
  tell : ∀ g listener status, P g → P { g with board := g.board.tell listener status }
  act : ∀ w g, P g → P (acting w g)

/-- A property that says nothing of notices and of the outbox. -/
structure Unspoken (P : Engine ω → Prop) : Prop where
  tell : ∀ g listener status, P g → P { g with board := g.board.tell listener status }
  order : ∀ (g : Engine ω) (ws : List ω), P g → P { g with outbox := g.outbox ++ ws.map .order }

theorem Aloof.keeps (h : Aloof acting) (hp : Unspoken P) : Keeps P acting where
  tell := hp.tell
  act := by
    intro w g hg
    obtain ⟨ws, hws⟩ := h w g
    exact hws ▸ hp.order g ws hg

theorem Callback.keeps {inner : Engine.Acting ω} {g g' : Engine ω}
    (h : Callback admitted inner g g') (hp : Unspoken P)
    (hcall : ∀ g c, admitted g c → c.waits = false → P g → P (g.call inner c)) (hg : P g) :
    P g' := by
  induction h with
  | none => exact hg
  | call c _ hadm hwaits ih => exact hcall _ c hadm hwaits ih
  | order w _ ih => exact hp.order _ [w] ih

/-- Listeners keep what each of their calls keeps, provided that those keep it whom the call
tells. -/
theorem Listening.keeps (h : Listening admitted acting) (hp : Unspoken P)
    (hcall : ∀ inner, Keeps P inner → ∀ g c, admitted g c → c.waits = false → P g →
      P (g.call inner c)) :
    Keeps P acting := by
  -- on how deep the calls are nested: whom a call tells is one level further in
  induction h with
  | aloof h => exact h.keeps hp
  | calling _ hback ih => exact ⟨hp.tell, fun w g => (hback w g).keeps hp (hcall _ ih)⟩

theorem Callback.mono {inner : Engine.Acting ω} {g g' : Engine ω}
    (h : Callback admitted inner g g') (himp : ∀ g c, admitted g c → admitted' g c) :
    Callback admitted' inner g g' := by
  induction h with
  | none => exact .none
  | call c _ hadm hwaits ih => exact .call c ih (himp _ c hadm) hwaits
  | order w _ ih => exact .order w ih

theorem Listening.mono (h : Listening admitted acting)
    (himp : ∀ g c, admitted g c → admitted' g c) : Listening admitted' acting := by
  induction h with
  | aloof h => exact .aloof h
  | calling _ hback ih => exact .calling ih fun w g => (hback w g).mono himp

theorem Listening.any (h : Listening admitted acting) : Listening (fun _ _ => True) acting :=
  h.mono fun _ _ _ => trivial

namespace Engine

variable {g : Engine ω} {e : StatusEvent}

/-! ## Events of the indicator -/

/-- The engine with the indicator after an event, before anybody is told. -/
def shows (g : Engine ω) (e : StatusEvent) : Engine ω :=
  { g with board := { g.board with indicator := ⟨e.target, e.error?⟩ } }

theorem tell_keeps (h : Keeps P acting) (status : Status) (g : Engine ω) (listener : String)
    (hg : P g) : P (g.tell acting status listener) := by
  have htold := h.tell g listener status hg
  unfold tell
  dsimp only
  split
  · split
    · exact h.act _ _ htold
    · exact htold
  · exact htold

/-- The engine `g'` comes about from `g` by telling listeners of a status, one after the other. -/
def Told (acting : Acting ω) (status : Status) (g g' : Engine ω) : Prop :=
  ∃ told : List String, g' = told.foldl (tell acting status) g

theorem Told.keeps {status : Status} {g' : Engine ω} (h : Told acting status g g')
    (hkeeps : Keeps P acting) (hg : P g) : P g' := by
  obtain ⟨told, rfl⟩ := h
  induction told generalizing g with
  | nil => exact hg
  | cons listener told ih => exact ih (tell_keeps hkeeps status g listener hg)

/-- An event that is not allowed changes nothing. -/
theorem fire_of_not_canBecome (h : g.status.canBecome e.target = false) :
    g.fire acting e = (g, .error ⟨g.status, e.target⟩) := by
  unfold status at h
  simp [fire, Board.shift, Indicator.after, h, status, Except.map]

/-- An event that is allowed moves the indicator, and then listeners are told. -/
theorem fire_of_canBecome (acting : Acting ω) (h : g.status.canBecome e.target = true) :
    ∃ g', Told acting e.target (g.shows e) g' ∧ g.fire acting e = (g', .ok ()) := by
  refine ⟨_, ⟨if g.status = e.target then [] else g.board.listeners, rfl⟩, ?_⟩
  unfold status at h
  simp [fire, Board.shift, Indicator.after, h, status, shows, Except.map]
  rfl

/-- Nobody is told of an event that leaves the status as it is. -/
theorem fire_of_eq (acting : Acting ω) (h : g.status = e.target)
    (hbecome : g.status.canBecome e.target = true) :
    g.fire acting e = (g.shows e, .ok ()) := by
  unfold status at h hbecome
  simp [fire, Board.shift, Indicator.after, h ▸ hbecome, h, shows, Except.map]

theorem fire_cases (acting : Acting ω) (g : Engine ω) (e : StatusEvent) :
    (g.status.canBecome e.target = false ∧
        g.fire acting e = (g, .error ⟨g.status, e.target⟩)) ∨
      (g.status.canBecome e.target = true ∧
        ∃ g', Told acting e.target (g.shows e) g' ∧ g.fire acting e = (g', .ok ())) := by
  cases h : g.status.canBecome e.target with
  | false => exact .inl ⟨rfl, fire_of_not_canBecome h⟩
  | true => exact .inr ⟨rfl, fire_of_canBecome acting h⟩

end Engine

end DeferredSave
