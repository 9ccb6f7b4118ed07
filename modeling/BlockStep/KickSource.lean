import BlockStep.Background
import BlockStep.Timeline

namespace BlockStep

/-- The two weights of kick integrals. -/
inductive KickKind where
  | gravity
  | hydro
deriving DecidableEq

namespace KickKind

def ofName (name : String) : Except Fault KickKind :=
  match name with
  | "gravity" => .ok gravity
  | "hydro" => .ok hydro
  | _ => .error .kickKindUnknown

end KickKind

structure KickSource (α : Type) where
  /-- The kick integral between two ticks. -/
  factor : Int → Int → KickKind → α
  /-- The length in `log a` of a number of ticks inside an epoch. -/
  length : Int → Int → α

namespace KickSource

/-- Factors and lengths in proportion to the ticks. -/
def linear {α : Type} [Scalar α] (perTick lengthPerTick : α) : KickSource α where
  factor start stop _ := Scalar.ofInt (stop - start) * perTick
  length ticks _ := Scalar.ofInt ticks * lengthPerTick

end KickSource

structure KickTable (α : Type) where
  grid : Array α
  /-- The gravity integral from the start of the run to each grid point. -/
  gravity : Array α
  hydro : Array α

namespace KickTable

variable {α : Type} [Scalar α]

/-- `count` points from `start` in even steps toward `stop`, which is not among them. -/
def spread (start stop : α) (count : Nat) : List α :=
  let step := (stop - start) / Scalar.ofInt count
  (List.range count).map fun (i : Nat) => Scalar.ofInt i * step + start

/-- `count` intervals between each two edges. -/
def gridOf (count : Nat) : List α → List α
  | a :: b :: rest => spread a b count ++ gridOf count (b :: rest)
  | edges => edges

/-- Running sums of the trapezoids over `xs` under `ys`, from `total` on. -/
def trapezoids (total : α) : List α → List α → List α
  | x :: x' :: xs, y :: y' :: ys =>
    total :: trapezoids (total + (x' - x) * (y' + y) / 2.0) (x' :: xs) (y' :: ys)
  | _, _ => [total]

def gravityWeight (c : CosmologyConfig α) (loga : α) : α :=
  let a := Scalar.exp loga
  1.0 / (a * c.expansion a)

def hydroWeight (c : CosmologyConfig α) (loga : α) : α :=
  let a := Scalar.exp loga
  1.0 / (c.expansion a * Scalar.pow a (3.0 * (gamma - 1.0)))

def make (c : CosmologyConfig α) (t : Timeline α) (samples : Int) : Except Fault (KickTable α) :=
  if samples < 2 then .error .tooFewSamples
  else
    let grid := gridOf samples.toNat t.edges.toList
    .ok {
      grid := grid.toArray
      gravity := (trapezoids 0.0 grid (grid.map (gravityWeight c))).toArray
      hydro := (trapezoids 0.0 grid (grid.map (hydroWeight c))).toArray }

/-- The last position from `lo` and below `hi` whose entry is at most `x`, as long as `lo` is
one. -/
def lastAtMost (xs : Array α) (x : α) (lo hi : Nat) : Nat :=
  if lo + 1 < hi then
    let mid := (lo + hi) / 2
    if xs.getD mid 0.0 ≤ x then lastAtMost xs x mid hi else lastAtMost xs x lo mid
  else lo
termination_by hi - lo

/-- The line through two points at `x`. Where it is undefined from the first point it is taken from
the second, and between equal heights it stays there. -/
def between (x0 y0 x1 y1 x : α) : α :=
  let slope := (y1 - y0) / (x1 - x0)
  let y := slope * (x - x0) + y0
  let z := slope * (x - x1) + y1
  if x0 == x then y0
  else if !Scalar.isNaN y then y
  else if Scalar.isNaN z ∧ y0 == y1 then y0
  else z

/-- The broken line through the points, level beyond both ends. -/
def interpolate (xs ys : Array α) (x : α) : α :=
  let last := xs.size - 1
  if Scalar.isNaN x then x
  else if x < xs.getD 0 0.0 then ys.getD 0 0.0
  else if xs.getD last 0.0 ≤ x then ys.getD last 0.0
  else
    let j := lastAtMost xs x 0 last
    between (xs.getD j 0.0) (ys.getD j 0.0) (xs.getD (j + 1) 0.0) (ys.getD (j + 1) 0.0) x

def integral (k : KickTable α) (kind : KickKind) (loga : α) : α :=
  match kind with
  | .gravity => interpolate k.grid k.gravity loga
  | .hydro => interpolate k.grid k.hydro loga

def factor (k : KickTable α) (t : Timeline α) (start stop : Int) (kind : KickKind) : α :=
  k.integral kind (t.logA stop) - k.integral kind (t.logA start)

def source (k : KickTable α) (t : Timeline α) : KickSource α where
  factor := k.factor t
  length ticks epoch := t.length (Scalar.ofInt ticks) epoch

/-- Grid intervals in an epoch when none are asked for. -/
def usualSamples : Int := 4096

@[simp] theorem length_spread (start stop : α) (count : Nat) :
    (spread start stop count).length = count := by
  simp [spread]

theorem length_trapezoids (total : α) {xs ys : List α} (h : xs.length = ys.length) (h' : xs ≠ []) :
    (trapezoids total xs ys).length = xs.length := by
  induction xs generalizing total ys with
  | nil => exact absurd rfl h'
  | cons x xs ih =>
    match xs, ys, h with
    | [], [y], _ => rfl
    | x' :: xs, y :: y' :: ys, h =>
      have hs : (x' :: xs).length = (y' :: ys).length := by simpa using h
      have rest := ih (total + (x' - x) * (y' + y) / 2.0) hs (List.cons_ne_nil x' xs)
      simpa [trapezoids] using rest

end KickTable

end BlockStep
