import BlockStep.Fault
import BlockStep.Kind
import BlockStep.TickCount
import BlockStep.Vec3

namespace BlockStep

structure Particle (α : Type) where
  id : Int
  kind : Int
  mass : α
  pos : Vec3 α
  vel : Vec3 α
  gravAccel : Vec3 α
  meshAccel : Vec3 α
  bin : Int
  /-- First tick of the current step. -/
  stepStart : Int
  /-- The tick up to which the particle was last kicked. -/
  kickTick : Int
  smoothing : α
  density : α
  signalVel : α
  hydroAccel : Vec3 α
  energy : α
  energyRate : α
  eomDensity : α
  holeMass : α
  holeRate : α
  holeBinLimit : Int

namespace Particle

variable {α : Type} [Scalar α]

def zero : Particle α where
  id := 0
  kind := 0
  mass := 0.0
  pos := .zero
  vel := .zero
  gravAccel := .zero
  meshAccel := .zero
  bin := 0
  stepStart := 0
  kickTick := 0
  smoothing := 0.0
  density := 0.0
  signalVel := 0.0
  hydroAccel := .zero
  energy := 0.0
  energyRate := 0.0
  eomDensity := 0.0
  holeMass := 0.0
  holeRate := 0.0
  holeBinLimit := 0

instance : Inhabited (Particle α) := ⟨zero⟩

def isGas (p : Particle α) : Bool := p.kind == Kind.gas

omit [Scalar α] in
/-- The tick in the middle of the current step, up to which the tree force is applied. -/
def midpoint (p : Particle α) : Int := kickPoint p.stepStart (TickCount.cadence p.bin)

end Particle

abbrev Store (α : Type) := Array (Particle α)

namespace Store

variable {α β : Type}

/-- The position an index names; a negative one counts from the end. -/
def position? (size : Nat) (i : Int) : Option Nat :=
  if 0 ≤ i ∧ i < size then some i.toNat
  else if i < 0 ∧ -i ≤ size then some (size + i).toNat
  else none

/-- The positions that indices name. -/
def places (s : Store α) (indices : List Int) : Except Fault (List Nat) :=
  match indices.mapM (position? s.size) with
  | some ps => .ok ps
  | none => .error .outOfRange

/-- The listed particles, in the order of the list. -/
def gather [Scalar α] (s : Store α) (places : List Nat) : List (Particle α) :=
  places.map fun i => s[i]?.getD default

/-- Changes the listed particles one after the other, each by its own value. -/
def scatter (s : Store α) (change : β → Particle α → Particle α) (places : List Nat)
    (values : List β) : Store α :=
  (places.zip values).foldl (fun s e => s.modify e.1 (change e.2)) s

theorem size_scatter (s : Store α) (change : β → Particle α → Particle α) (places : List Nat)
    (values : List β) : (s.scatter change places values).size = s.size := by
  induction places generalizing s values with
  | nil => simp [scatter]
  | cons i is ih =>
    cases values with
    | nil => simp [scatter]
    | cons v vs => simpa [scatter] using ih (s.modify i (change v)) vs

theorem getElem?_scatter_of_not_mem (s : Store α) (change : β → Particle α → Particle α)
    {places : List Nat} (values : List β) {i : Nat} (h : i ∉ places) :
    (s.scatter change places values)[i]? = s[i]? := by
  induction places generalizing s values with
  | nil => simp [scatter]
  | cons j js ih =>
    cases values with
    | nil => simp [scatter]
    | cons v vs =>
      simp only [List.mem_cons, not_or] at h
      have rest := ih (s.modify j (change v)) vs h.2
      simpa [scatter, Array.getElem?_modify, Ne.symm h.1] using rest

/-- A particle that is listed once changes by its own value. -/
theorem getElem?_scatter_cons (s : Store α) (change : β → Particle α → Particle α) (i : Nat)
    {places : List Nat} (v : β) (values : List β) (h : i ∉ places) :
    (s.scatter change (i :: places) (v :: values))[i]? = s[i]?.map (change v) := by
  have rest := getElem?_scatter_of_not_mem (s.modify i (change v)) change values h
  simpa [scatter, Array.getElem?_modify] using rest

theorem position?_of_lt {size : Nat} {i : Nat} (h : i < size) : position? size i = some i := by
  simp [position?, h]

end Store

end BlockStep
