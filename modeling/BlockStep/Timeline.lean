import BlockStep.Fault
import BlockStep.Scalar
import BlockStep.TickCount

namespace BlockStep

structure Timeline (α : Type) where
  /-- `log a` where epochs meet, one more than there are epochs. -/
  edges : Array α
  /-- The length of a tick in each epoch. -/
  intervals : Array α
  timebase : Int

namespace Timeline

variable {α : Type} [Scalar α]

/-- Puts a number into an ascending list that has each number once. -/
def insertEdge (x : α) : List α → List α
  | [] => [x]
  | y :: rest =>
    if x < y then x :: y :: rest else if y < x then y :: insertEdge x rest else y :: rest

def isInside (begin max a : α) : Bool := begin < a && a < max

/-- The output times within the run, each once and in ascending order. -/
def inner (begin max : α) (outputs : List α) : List α :=
  (outputs.filter (isInside begin max)).foldl (fun as a => insertEdge a as) []

/-- The output times that the run does not reach. -/
def outer (begin max : α) (outputs : List α) : List α :=
  outputs.filter fun a => !isInside begin max a

/-- The differences of neighbours. -/
def gaps : List α → List α
  | a :: b :: rest => (b - a) :: gaps (b :: rest)
  | _ => []

def ofEdges (edges : List α) (timebase : Int) : Timeline α where
  edges := edges.toArray
  intervals := ((gaps edges).map (· / Scalar.ofInt timebase)).toArray
  timebase := timebase

def epochs (t : Timeline α) : Nat := t.intervals.size

/-- The first tick behind the run. -/
def endTick (t : Timeline α) : Int := t.epochs * t.timebase

def HasOrder (begin max : α) : Prop := (0.0 : α) < begin ∧ begin < max

instance (begin max : α) : Decidable (HasOrder begin max) := inferInstanceAs (Decidable (_ ∧ _))

/-- The clock of a run between two scale factors; its ticks have to be words. -/
def make (begin max : α) (outputs : List α) (timebase : Int) : Except Fault (Timeline α) :=
  if HasOrder begin max then
    let t := ofEdges ((begin :: inner begin max outputs ++ [max]).map Scalar.log) timebase
    if Word.greatest < t.endTick then .error (.ticksOverflow t.epochs timebase) else .ok t
  else .error .timelineOrder

/-- The epoch of the run that is nearest to `epoch`. -/
def nearest (t : Timeline α) (epoch : Int) : Nat :=
  if epoch < 0 then 0 else min epoch.toNat (t.epochs - 1)

def edge (t : Timeline α) (epoch : Nat) : α := t.edges.getD epoch 0.0

/-- The length in `log a` of a tick of `epoch`. -/
def interval (t : Timeline α) (epoch : Int) : α := t.intervals.getD (t.nearest epoch) 0.0

def logA (t : Timeline α) (tick : Int) : α :=
  let epoch := tick.fdiv t.timebase
  let near := t.nearest epoch
  t.edge near + Scalar.ofInt (tick - near * t.timebase) * t.interval epoch

def scaleFactor (t : Timeline α) (tick : Int) : α := Scalar.exp (t.logA tick)

/-- The length in `log a` of a number of ticks inside an epoch. -/
def length (t : Timeline α) (ticks : α) (epoch : Int) : α := ticks * t.interval epoch

/-- The number of whole ticks in a length of `log a`. -/
def ticksIn (t : Timeline α) (length : α) (epoch : Int) : α :=
  Scalar.floor (length / t.interval epoch)

/-- As `ticksIn`, between no tick and a whole epoch. -/
def stepIn (t : Timeline α) (length : α) (epoch : Int) : Int :=
  let ticks := t.ticksIn length epoch
  if Scalar.isFinite ticks then
    Scalar.trunc (Scalar.lesser (Scalar.larger ticks 0.0) (Scalar.ofInt t.timebase))
  else if Scalar.isNaN ticks ∨ ticks < 0.0 then 0
  else t.timebase

/-- The length in `log a` of the step of a bin. -/
def binLength (t : Timeline α) (bin epoch : Int) : α :=
  t.length (Scalar.ofInt (TickCount.cadence bin)) epoch

@[simp] theorem length_gaps (xs : List α) : (gaps xs).length = xs.length - 1 := by
  fun_induction gaps xs with
  | case1 a b rest ih => simpa using ih
  | case2 xs h =>
    match xs, h with
    | [], _ => rfl
    | [_], _ => rfl
    | a :: b :: rest, h => exact absurd rfl (h a b rest)

theorem epochs_ofEdges (edges : List α) (timebase : Int) :
    (ofEdges edges timebase).epochs = edges.length - 1 := by
  simp [ofEdges, epochs]

end Timeline

/-- The ticks of an epoch in a hierarchy of `bins` bins. -/
def timebaseOf (bins : Int) : Except Fault Int :=
  if bins < 2 then .error .tooFewBins
  else if Fault.mostBins < bins then .error .tooManyBins
  else .ok (pow2 (bins.toNat - 1))

end BlockStep
