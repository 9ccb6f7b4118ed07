import BlockStep.Act
import BlockStep.Shaped
import BlockStep.TickCount

namespace BlockStep.Assign

/-- Step lengths that no bin from 1 on can hold. -/
def isFault (rounded : Int) : Bool := rounded ≤ 1

/-- The highest active bin up to `bin`, or -1. -/
def highestActive (isActive : Nat → Bool) : Nat → Int
  | 0 => if isActive 0 then 0 else -1
  | b + 1 => if isActive (b + 1) then b + 1 else highestActive isActive b

/-- The bin that a desired step asks for in a hierarchy of `n` bins. -/
def candidate (n : Nat) (desired : Int) : Int :=
  min (TickCount.binOf (TickCount.roundDown desired)) (n - 1)

structure Placement where
  bin : Int
  ticks : Int
deriving DecidableEq, Repr

def grows (n : Nat) (desired current : Int) : Bool := current < candidate n desired

/-- A particle without a usable step stays where it is. -/
def place (n : Nat) (isActive : Nat → Bool) (desired current : Int) : Placement :=
  let bin :=
    if isFault (TickCount.roundDown desired) then current
    else if grows n desired current then
      max (highestActive isActive (candidate n desired).toNat) current
    else candidate n desired
  ⟨bin, TickCount.cadence bin⟩

/-- A growing particle that gets less than it asks for. -/
def isDemoted (n : Nat) (isActive : Nat → Bool) (desired current : Int) : Bool :=
  grows n desired current
    && decide ((place n isActive desired current).ticks < TickCount.roundDown desired)

/-- The growth, the demotions and the faults among placements of particles. -/
def told {α : Type} (n : Nat) (isActive : Nat → Bool) (desired : List Int)
    (pairs : List (Int × Int)) : Event α :=
  .stepsAssigned desired.length
    (pairs.countP fun e => decide (e.2 < (place n isActive e.1 e.2).bin))
    (pairs.countP fun e => isDemoted n isActive e.1 e.2)
    (desired.countP fun d => isFault (TickCount.roundDown d))

/-- Places particles with a desired step and a bin each. A mask is read only if a particle grows,
and has an entry for each of the `n` bins. -/
def placeList {α σ : Type} (n : Nat) (mask : List Bool) (desired : List Int)
    (pairs : List (Int × Int)) : Act α σ (List Placement) := do
  if desired.any (· < 0) then Act.fail .negativeTicks
  if pairs.any (fun e => grows n e.1 e.2) && mask.length != n then Act.fail (.maskLength n)
  let isActive b := mask.getD b false
  if !desired.isEmpty then Act.tell (told n isActive desired pairs)
  pure (pairs.map fun e => place n isActive e.1 e.2)

/-- As `placeList` for rows of any depth; the faults follow the desired steps. -/
def placeAll {α σ : Type} (n : Nat) (mask : List Bool) (desired current : Shaped Int) :
    Act α σ (Shaped Placement × Shaped Bool) := do
  if desired.cells.any (· < 0) then Act.fail .negativeTicks
  match desired.zipWith? Prod.mk current with
  | none => Act.fail .shapesDiffer
  | some pairs =>
    let placed ← placeList n mask desired.cells.toList pairs.cells.toList
    pure (⟨pairs.shape, placed.toArray⟩, desired.map fun d => isFault (TickCount.roundDown d))

/-- The greatest word, which limits no step. -/
def leastSeed : Int := Word.greatest

/-- The least step on any rank. -/
def equalStep {α σ : Type} (desired : List Int) : Act α σ Int :=
  Act.reduce .leastTick (desired.foldl min leastSeed : Int)

end BlockStep.Assign
