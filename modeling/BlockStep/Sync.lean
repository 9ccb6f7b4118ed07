import BlockStep.Act
import BlockStep.Registry
import BlockStep.Tick

namespace BlockStep

namespace Registry

variable {n : Nat}

/-- The first multiple of `cadence` behind `tick`. -/
def nextMultiple (tick cadence : Int) : Int := tick.fdiv cadence * cadence + cadence

/-- The next due tick of the bins that this rank occupies. -/
def nextSync (r : Registry n) (current : Tick) (timebase : Int) : Tick :=
  if r.count[0]?.getD 0 ≠ 0 then current
  else
    let candidates := (r.occupied.filter (0 < ·)).map fun b =>
      nextMultiple current.localTick (pow2 b)
    ⟨current.epoch, candidates.foldl min timebase⟩

/-- Bin 0 and the bins whose cadence divides the tick. -/
def dueMask (n : Nat) (tick : Int) : Vector Bool n :=
  Vector.ofFn fun b => b.val == 0 || tick % pow2 b.val == 0

/-- Activates the bins that are due at a tick; also the number of particles in them. -/
def markDue (r : Registry n) (next : Tick) : Registry n × Int :=
  let r := { r with active := dueMask n next.localTick }
  (r, sum (((List.range n).filter r.isActive).map fun b => r.count[b]?.getD 0))

/-- The next due tick of all ranks. -/
def agreeSync {α σ : Type} (r : Registry n) (current : Tick) (timebase : Int) : Act α σ Tick := do
  let candidate := (r.nextSync current timebase).toAbsolute timebase
  let agreed ← Act.reduce .leastTick candidate
  match Tick.ofAbsolute? agreed timebase with
  | none => Act.fail .divisionByZero
  | some next =>
    Act.tell (.syncFound current candidate next)
    pure next

theorem getElem_dueMask (tick : Int) {b : Nat} (h : b < n) :
    (dueMask n tick)[b] = (b == 0 || tick % pow2 b == 0) := by
  simp [dueMask]

theorem lt_nextMultiple (tick : Int) {cadence : Int} (h : 0 < cadence) :
    tick < nextMultiple tick cadence := by
  have := Int.mul_fdiv_add_fmod tick cadence
  have := Int.fmod_lt_of_pos tick h
  rw [nextMultiple, Int.mul_comm]
  omega

theorem dvd_nextMultiple (tick cadence : Int) : cadence ∣ nextMultiple tick cadence :=
  ⟨tick.fdiv cadence + 1, by rw [nextMultiple, Int.mul_add, Int.mul_comm, Int.mul_one]⟩

end Registry

end BlockStep
