import BlockStep.Scalar

namespace BlockStep

/-- The reductions of a run: what is reduced, and how. -/
inductive Reduction where
  /-- The least tick or step of any rank. -/
  | leastTick
  /-- The number of faults on all ranks. -/
  | faultCount
  /-- The greatest displacement on any rank. -/
  | greatestLength
  /-- A sum for each kind. -/
  | kindSums
  /-- The number of particles of each kind. -/
  | kindCounts
  /-- The least mass of each kind. -/
  | kindLeasts
deriving DecidableEq

namespace Reduction

/-- What a rank hands in and gets back. -/
def Carrier (α : Type) : Reduction → Type
  | leastTick => Int
  | faultCount => Int
  | greatestLength => α
  | kindSums => Vector α 6
  | kindCounts => Vector Int 6
  | kindLeasts => Vector α 6

variable {α : Type} [Scalar α]

/-- The joint value of two contributions. -/
def combine : (r : Reduction) → r.Carrier α → r.Carrier α → r.Carrier α
  | leastTick => (min : Int → Int → Int)
  | faultCount => ((· + ·) : Int → Int → Int)
  | greatestLength => (Scalar.upper : α → α → α)
  | kindSums => (Vector.zipWith (· + ·) : Vector α 6 → Vector α 6 → Vector α 6)
  | kindCounts => (Vector.zipWith (· + ·) : Vector Int 6 → Vector Int 6 → Vector Int 6)
  | kindLeasts => (Vector.zipWith Scalar.lower : Vector α 6 → Vector α 6 → Vector α 6)

/-- The joint value of a first contribution and others. -/
def total (r : Reduction) (v : r.Carrier α) (others : List (r.Carrier α)) : r.Carrier α :=
  others.foldl r.combine v

end Reduction

inductive Collective (α β : Type) where
  | done (b : β)
  | reduce (r : Reduction) (v : r.Carrier α) (next : r.Carrier α → Collective α β)

namespace Collective

variable {α β γ δ : Type}

def bind : Collective α β → (β → Collective α γ) → Collective α γ
  | done b, f => f b
  | reduce r v next, f => reduce r v fun w => bind (next w) f

def map (f : β → γ) : Collective α β → Collective α γ
  | done b => done (f b)
  | reduce r v next => reduce r v fun w => map f (next w)

/-- The result when every reduction is answered by a rule. -/
def answer (rule : (r : Reduction) → r.Carrier α → r.Carrier α) : Collective α β → β
  | done b => b
  | reduce r v next => answer rule (next (rule r v))

/-- The result of a rank without others: it gets its own value back. -/
def alone (c : Collective α β) : β := c.answer fun _ v => v

/-- A reduction with the value a rank handed in. -/
abbrev Call (α : Type) := (r : Reduction) × r.Carrier α

/-- The reductions a rank reaches when they are answered by a rule. -/
def calls (rule : (r : Reduction) → r.Carrier α → r.Carrier α) : Collective α β → List (Call α)
  | done _ => []
  | reduce r v next => ⟨r, v⟩ :: calls rule (next (rule r v))

/-- The value that a rank hands to reduction `r`, and what it does with the answer, if that is what
it does next. -/
def waiting? (r : Reduction) : Collective α β →
    Option (r.Carrier α × (r.Carrier α → Collective α β))
  | done _ => none
  | reduce r' v next => if h : r' = r then some (h ▸ (v, next)) else none

def finished? : Collective α β → Option β
  | done b => some b
  | reduce .. => none

/-- The results of several ranks that meet in every reduction, the first rank first; none if they do
not reach the same reductions. -/
def together [Scalar α] (first : Collective α β) (others : List (Collective α β)) :
    Option (List β) :=
  match first with
  | done b => (others.mapM finished?).map (b :: ·)
  | reduce r v next =>
    match others.mapM (waiting? r) with
    | none => none
    | some ws =>
      let w := r.total v (ws.map (·.1))
      together (next w) (ws.map fun e => e.2 w)

@[simp] theorem bind_done (c : Collective α β) : c.bind done = c := by
  induction c with
  | done b => rfl
  | reduce r v next ih => simp only [bind, ih]

theorem bind_assoc (c : Collective α β) (f : β → Collective α γ) (g : γ → Collective α δ) :
    (c.bind f).bind g = c.bind fun b => (f b).bind g := by
  induction c with
  | done b => rfl
  | reduce r v next ih => simp only [bind, ih]

theorem map_eq_bind (f : β → γ) (c : Collective α β) : c.map f = c.bind fun b => done (f b) := by
  induction c with
  | done b => rfl
  | reduce r v next ih => simp only [map, bind, ih]

@[simp] theorem answer_bind (rule : (r : Reduction) → r.Carrier α → r.Carrier α)
    (c : Collective α β) (f : β → Collective α γ) :
    (c.bind f).answer rule = (f (c.answer rule)).answer rule := by
  induction c with
  | done b => rfl
  | reduce r v next ih => simp only [bind, answer, ih]

@[simp] theorem answer_map (rule : (r : Reduction) → r.Carrier α → r.Carrier α)
    (f : β → γ) (c : Collective α β) : (c.map f).answer rule = f (c.answer rule) := by
  simp only [map_eq_bind, answer_bind, answer]

end Collective

end BlockStep
