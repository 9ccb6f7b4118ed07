import BlockStep.Collective
import BlockStep.Event

namespace BlockStep

structure Outcome (α σ β : Type) where
  result : Except Fault β
  state : σ
  events : Array (Event α)

def Act (α σ β : Type) : Type := σ → Collective α (Outcome α σ β)

namespace Act

variable {α σ τ β γ : Type}

def pure (b : β) : Act α σ β := fun s => .done ⟨.ok b, s, #[]⟩

/-- What a step becomes after the events that came before it. -/
def Outcome.after (before : Array (Event α)) (o : Outcome α σ β) : Outcome α σ β :=
  ⟨o.result, o.state, before ++ o.events⟩

/-- Goes on only from a result. -/
def bind (x : Act α σ β) (f : β → Act α σ γ) : Act α σ γ := fun s =>
  (x s).bind fun o =>
    match o.result with
    | .error e => .done ⟨.error e, o.state, o.events⟩
    | .ok b => (f b o.state).map (Outcome.after o.events)

instance : Monad (Act α σ) where
  pure := pure
  bind := bind

def get : Act α σ σ := fun s => .done ⟨.ok s, s, #[]⟩

def set (s : σ) : Act α σ Unit := fun _ => .done ⟨.ok (), s, #[]⟩

def modify (f : σ → σ) : Act α σ Unit := fun s => .done ⟨.ok (), f s, #[]⟩

def tell (e : Event α) : Act α σ Unit := fun s => .done ⟨.ok (), s, #[e]⟩

def tellAll (es : List (Event α)) : Act α σ Unit := fun s => .done ⟨.ok (), s, es.toArray⟩

def fail (e : Fault) : Act α σ β := fun s => .done ⟨.error e, s, #[]⟩

/-- A step that is already settled. -/
def lift (x : Except Fault β) : Act α σ β := fun s => .done ⟨x, s, #[]⟩

instance : MonadLift (Except Fault) (Act α σ) := ⟨lift⟩

/-- The agreed value of a reduction. -/
def reduce (r : Reduction) (v : r.Carrier α) : Act α σ (r.Carrier α) := fun s =>
  .reduce r v fun w => .done ⟨.ok w, s, #[]⟩

/-- Runs a step on a part of the state. -/
def within (part : σ → τ) (put : τ → σ → σ) (x : Act α τ β) : Act α σ β := fun s =>
  (x (part s)).map fun o => ⟨o.result, put o.state s, o.events⟩

/-- Changes the state in case of a fault, which stays. -/
def onFault (change : σ → σ) (x : Act α σ β) : Act α σ β := fun s =>
  (x s).map fun o =>
    match o.result with
    | .ok b => ⟨.ok b, o.state, o.events⟩
    | .error e => ⟨.error e, change o.state, o.events⟩

@[simp] theorem Outcome.after_empty (o : Outcome α σ β) : Outcome.after #[] o = o := by
  simp only [Outcome.after, Array.empty_append]

theorem pure_bind (b : β) (f : β → Act α σ γ) : bind (pure b) f = f b := by
  funext s
  simp only [bind, pure, Collective.bind, Collective.map_eq_bind, Outcome.after_empty]
  exact Collective.bind_done _

theorem bind_pure (x : Act α σ β) : bind x pure = x := by
  funext s
  simp only [bind]
  conv => rhs; rw [← Collective.bind_done (x s)]
  congr 1
  funext o
  obtain ⟨r, t, es⟩ := o
  cases r <;> simp [pure, Collective.map, Outcome.after]

theorem bind_assoc (x : Act α σ β) (f : β → Act α σ γ) (g : γ → Act α σ τ) :
    bind (bind x f) g = bind x fun b => bind (f b) g := by
  funext s
  simp only [bind, Collective.bind_assoc]
  congr 1
  funext o
  obtain ⟨r, t, es⟩ := o
  cases r with
  | error e => rfl
  | ok b =>
    simp only [Collective.map_eq_bind, Collective.bind_assoc, Collective.bind]
    congr 1
    funext o
    obtain ⟨r, t, es⟩ := o
    cases r <;> simp [Collective.bind, Outcome.after, Collective.bind_assoc]

instance : LawfulMonad (Act α σ) := .mk' _ bind_pure pure_bind bind_assoc

end Act

end BlockStep
