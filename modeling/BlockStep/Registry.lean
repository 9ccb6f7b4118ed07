import BlockStep.Fault
import BlockStep.Particle
import BlockStep.Word

namespace BlockStep

/-- How many particles each bin holds, and which bins are active. During a cycle the tables follow
the moves of particles; `recount` makes them from the particles alone. -/
structure Registry (n : Nat) where
  count : Vector Int n
  /-- The occupancy of the bins by each kind. -/
  byKind : Vector (Vector Int n) 6
  active : Vector Bool n
deriving DecidableEq

namespace Registry

variable {α : Type} {n : Nat}

/-- No particles, and every bin active. -/
def empty (n : Nat) : Registry n where
  count := .replicate n 0
  byKind := .replicate 6 (.replicate n 0)
  active := .replicate n true

def reset (r : Registry n) : Registry n :=
  { r with count := .replicate n 0, byKind := .replicate 6 (.replicate n 0) }

def HasBin (_ : Registry n) (bin : Int) : Prop := 0 ≤ bin ∧ bin < n

instance (r : Registry n) (bin : Int) : Decidable (r.HasBin bin) :=
  inferInstanceAs (Decidable (_ ∧ _))

def sum (is : List Int) : Int := is.foldr (· + ·) 0

def total (r : Registry n) : Int := sum r.count.toList

def occupied (r : Registry n) : List Nat :=
  (List.range n).filter fun b => r.count[b]?.getD 0 != 0

def isActive (r : Registry n) (bin : Nat) : Bool := r.active[bin]?.getD false

/-- Sets the occupancy of a bin alone. -/
def setCount (r : Registry n) (bin : Nat) (particles : Int) : Registry n :=
  { r with count := r.count.setIfInBounds bin particles }

/-- A table row with more particles in a bin. -/
def raised (row : Vector Int n) (bin : Nat) (particles : Int) : Vector Int n :=
  Vector.ofFn fun b => if b.val = bin then row.get b + particles else row.get b

/-- Adds particles of a kind to a bin. -/
def add (r : Registry n) (kind bin : Nat) (particles : Int) : Registry n :=
  { r with
    count := raised r.count bin particles
    byKind := Vector.ofFn fun k =>
      if k.val = kind then raised (r.byKind.get k) bin particles else r.byKind.get k }

def setMask (r : Registry n) (mask : List Bool) : Except Fault (Registry n) :=
  if h : mask.length = n then .ok { r with active := ⟨mask.toArray, h⟩ } else .error (.maskLength n)

/-- The bins whose bit is set in `mask`. -/
def maskOf (n : Nat) (mask : Int) : Vector Bool n :=
  Vector.ofFn fun b => mask / pow2 b.val % 2 == 1

def setBinmask (r : Registry n) (mask : Int) : Except Fault (Registry n) :=
  if Word.Holds mask then .ok { r with active := maskOf n mask } else .error .wordOverflow

/-- The active bins as bits of a word. -/
def binmask (r : Registry n) : Int :=
  Word.wrap (sum (((List.range n).filter r.isActive).map fun b => (pow2 b : Int)))

/-- The occupancy of each kind over all bins. -/
def kindTotals (r : Registry n) : List Int := r.byKind.toList.map fun row => sum row.toList

/-- Checks that the tables agree with each other and with the numbers of particles. -/
def check (r : Registry n) (particles : Int) (totals : Option (List Int)) : Except Fault Unit :=
  if r.total ≠ particles then .error (.totalMismatch r.total particles)
  else if (Vector.ofFn fun b : Fin n => sum (r.byKind.toList.map (·.get b))) ≠ r.count then
    .error .kindSumMismatch
  else
    match totals with
    | none => .ok ()
    | some ts => if r.kindTotals = ts then .ok () else .error (.kindTotalsMismatch r.kindTotals ts)

/-- Numbers of the tables for a record of a cycle; an empty table has no least and greatest bin. -/
structure Digest where
  total : Int
  occupied : Nat
  least : Int
  greatest : Int
  binmask : Int
deriving DecidableEq, Repr

def digest (r : Registry n) : Digest where
  total := r.total
  occupied := r.occupied.length
  least := (r.occupied.head?.map Int.ofNat).getD (-1)
  greatest := (r.occupied.getLast?.map Int.ofNat).getD (-1)
  binmask := r.binmask

/-- The number of particles in a bin. -/
def countIn (store : Store α) (bin : Int) : Int := store.countP fun p => p.bin == bin

/-- The number of particles of a kind in a bin. -/
def countOf (store : Store α) (kind bin : Int) : Int :=
  store.countP fun p => p.kind == kind && p.bin == bin

/-- The positions of the particles in active bins. -/
def due (r : Registry n) (store : Store α) : List Nat :=
  (List.range store.size).filter fun i =>
    match store[i]? with
    | some p => r.isActive p.bin.toNat
    | none => false

/-- Counts all particles anew and lists those in active bins. Bins outside the table change nothing;
kinds outside it leave only the total. -/
def recount (r : Registry n) (store : Store α) : Registry n × Except Fault (List Nat) :=
  let bins := store.toList.map (·.bin)
  if bins.any fun b => !decide (r.HasBin b) then
    let least := bins.foldl min (bins.headD 0)
    let greatest := bins.foldl max (bins.headD 0)
    (r, .error (.binRange least greatest n))
  else
    let r := { r.reset with count := Vector.ofFn fun b => countIn store b.val }
    if store.any fun p => !decide (Kind.Exists p.kind) then (r, .error .outsideTable)
    else
      let r := { r with
        byKind := Vector.ofFn fun k => Vector.ofFn fun b => countOf store k.val b.val }
      (r, .ok (r.due store))

@[simp] theorem sum_nil : sum [] = 0 := rfl

@[simp] theorem sum_cons (i : Int) (is : List Int) : sum (i :: is) = i + sum is := rfl

theorem sum_append (is js : List Int) : sum (is ++ js) = sum is + sum js := by
  induction is with
  | nil => simp
  | cons i is ih => simp [ih, Int.add_assoc]

theorem sum_replicate_zero (m : Nat) : sum (List.replicate m 0) = 0 := by
  induction m with
  | zero => rfl
  | succ m ih => simp [List.replicate_succ, ih]

end Registry

/-- The number of particles of each kind. -/
def Store.kindTotals {α : Type} (store : Store α) : List Int :=
  (List.range Kind.count).map fun k => Int.ofNat (store.countP fun p => p.kind == Int.ofNat k)

end BlockStep
