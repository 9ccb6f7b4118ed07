import BlockStep.Proofs.EvenClock
import BlockStep.Proofs.Heating
import BlockStep.Proofs.Interpolation

namespace BlockStep.KickTable

variable {α : Type} [ExactScalar α] {c : CosmologyConfig α} {t : Timeline α} {k : KickTable α}
  {samples : Int}

/-- The grid ascends, has so many intervals in an epoch, and holds the edges of all epochs. -/
structure Spans (k : KickTable α) (t : Timeline α) (samples : Int) : Prop where
  ascending : k.grid.toList.Pairwise (· < ·)
  size_eq : (k.grid.size : Int) = t.epochs * samples + 1
  edges : ∀ a ∈ t.edges, a ∈ k.grid

/-- Kicks that do not point backwards, of which only those outside the run do nothing. -/
structure Accumulates (k : KickTable α) (t : Timeline α) (kind : KickKind) : Prop where
  nonneg : ∀ start stop, start ≤ stop → 0 ≤ k.factor t start stop kind
  pos : ∀ start stop, start < stop → start < t.endTick → 0 < stop → 0 < k.factor t start stop kind
  before : ∀ start stop, start ≤ 0 → stop ≤ 0 → k.factor t start stop kind = 0
  behind : ∀ start stop, t.endTick ≤ start → t.endTick ≤ stop → k.factor t start stop kind = 0

def heights (k : KickTable α) : KickKind → Array α
  | .gravity => k.gravity
  | .hydro => k.hydro

theorem integral_eq (k : KickTable α) (kind : KickKind) (x : α) :
    k.integral kind x = interpolate k.grid (k.heights kind) x := by
  cases kind with
  | gravity => rfl
  | hydro => rfl

def weight (c : CosmologyConfig α) : KickKind → α → α
  | .gravity => gravityWeight c
  | .hydro => hydroWeight c

theorem weight_pos [Scalar.HasExp α] {x : α} (h : 0 < c.expansion (Scalar.exp x))
    (kind : KickKind) : 0 < weight c kind x := by
  have hexp := Scalar.HasExp.exp_pos x
  have hone : (0 : α) < 1.0 := ExactScalar.ofScientific_pos (by norm_num)
  cases kind with
  | gravity => exact div_pos hone (mul_pos hexp h)
  | hydro => exact div_pos hone (mul_pos h (ExactScalar.pow_pos _ _ hexp))

theorem getD_lt_of_pairwise {xs : List α} (h : xs.Pairwise (· < ·)) {i j : Nat} (hij : i < j)
    (hj : j < xs.length) : xs.toArray.getD i 0.0 < xs.toArray.getD j 0.0 := by
  have hless := List.pairwise_iff_getElem.1 h i j (hij.trans hj) hj hij
  simpa [hj, hij.trans hj] using hless

theorem getD_first {xs : List α} {a : α} (h : xs.head? = some a) : xs.toArray.getD 0 0.0 = a := by
  rw [Array.getD_eq_getD_getElem?, List.getElem?_toArray, ← List.head?_eq_getElem?, h,
    Option.getD_some]

theorem getD_last {xs : List α} {a : α} (h : xs.getLast? = some a) :
    xs.toArray.getD (xs.toArray.size - 1) 0.0 = a := by
  rw [Array.getD_eq_getD_getElem?, List.getElem?_toArray, List.size_toArray,
    ← List.getLast?_eq_getElem?, h, Option.getD_some]

structure IsOver (k : KickTable α) (t : Timeline α) : Prop where
  clock : t.IsClock
  first : k.grid.getD 0 0.0 = t.logA 0
  last : k.grid.getD (k.grid.size - 1) 0.0 = t.logA t.endTick

theorem accumulates (h : k.IsOver t) {kind : KickKind} (hk : Ascends k.grid (k.heights kind)) :
    k.Accumulates t kind := by
  have hmono := h.clock.strictMono_logA
  have hfirst := h.first
  have hlast := h.last
  constructor
  case nonneg =>
    intro start stop hle
    rw [factor, integral_eq, integral_eq, sub_nonneg]
    exact hk.interpolate_mono (hmono.monotone hle)
  case pos =>
    intro start stop hlt hend hpos
    rw [factor, integral_eq, integral_eq, sub_pos]
    apply hk.interpolate_lt (hmono hlt)
    · rw [hlast]
      exact hmono hend
    · rw [hfirst]
      exact hmono hpos
  case before =>
    intro start stop hstart hstop
    have hlevel {tick : Int} (htick : tick ≤ 0) :=
      hk.interpolate_of_le (hfirst ▸ hmono.monotone htick)
    rw [factor, integral_eq, integral_eq, hlevel hstart, hlevel hstop, sub_self]
  case behind =>
    intro start stop hstart hstop
    have hlevel {tick : Int} (htick : t.endTick ≤ tick) :=
      hk.interpolate_of_ge (hlast ▸ hmono.monotone htick)
    rw [factor, integral_eq, integral_eq, hlevel hstart, hlevel hstop, sub_self]

theorem spans_gridOf {edges : List α} {timebase : Int} (h : edges.Pairwise (· < ·))
    (hlen : 2 ≤ edges.length) (hs : 2 ≤ samples)
    (hk : k.grid = (gridOf samples.toNat edges).toArray) :
      k.Spans (.ofEdges edges timebase) samples := by
  have hcount : 0 < samples.toNat := by omega
  have hsamples : (samples.toNat : Int) = samples := Int.toNat_of_nonneg (by omega)
  obtain ⟨a, rest, rfl⟩ := List.exists_cons_of_length_pos (by omega : 0 < edges.length)
  constructor
  case ascending =>
    rw [hk]
    exact pairwise_gridOf hcount h
  case size_eq =>
    rw [hk, List.size_toArray, length_gridOf, Timeline.epochs_ofEdges, List.length_cons, ← hsamples]
    push_cast
    rfl
  case edges =>
    intro e he
    rw [hk]
    exact List.mem_toArray.2 (mem_gridOf hcount (List.mem_toArray.1 he))

theorem isOver_gridOf {edges : List α} {timebase : Int} (h : edges.Pairwise (· < ·))
    (hlen : 2 ≤ edges.length) (htb : 0 < timebase) (hs : 2 ≤ samples)
    (hk : k.grid = (gridOf samples.toNat edges).toArray) : k.IsOver (.ofEdges edges timebase) := by
  have hclock := Timeline.isClock_ofEdges h hlen htb
  have hepochs := Timeline.epochs_ofEdges edges timebase
  have hcount : 0 < samples.toNat := by omega
  have hedge {e : Nat} (he : e < edges.length) :
      (Timeline.ofEdges edges timebase).logA (e * timebase) = edges[e] := by
    have hat : (Timeline.ofEdges edges timebase).edge e = edges[e] := Timeline.edge_ofEdges he
    rw [← hat]
    exact hclock.logA_edge (by omega)
  obtain ⟨a, rest, rfl⟩ := List.exists_cons_of_length_pos (by omega : 0 < edges.length)
  constructor
  case clock => exact hclock
  case first =>
    have hfirst := hedge (Nat.succ_pos rest.length)
    rw [Nat.cast_zero, zero_mul] at hfirst
    rw [hk, getD_first (head?_gridOf hcount a rest), hfirst]
    rfl
  case last =>
    have hend : rest.length < (a :: rest).length := Nat.lt_succ_self _
    have hlast : (a :: rest).getLast? = some (a :: rest)[rest.length] := by
      rw [List.getLast?_eq_getElem?]
      exact List.getElem?_eq_getElem hend
    rw [hk, getD_last ((getLast?_gridOf samples.toNat a rest).trans hlast), ← hedge hend,
      Timeline.endTick, hepochs]
    rfl

theorem ascends_trapezoids [Scalar.HasExp α] {grid : List α} (h : grid.Pairwise (· < ·))
    (hlen : 2 ≤ grid.length) (hpos : ∀ x ∈ grid, 0 < c.expansion (Scalar.exp x)) (kind : KickKind) :
    Ascends grid.toArray (trapezoids 0.0 grid (grid.map (weight c kind))).toArray := by
  have hweights : ∀ y ∈ grid.map (weight c kind), 0 < y := by
    intro y hy
    obtain ⟨x, hx, rfl⟩ := List.mem_map.1 hy
    exact weight_pos (hpos x hx) kind
  have hmap : grid.length = (grid.map (weight c kind)).length := (List.length_map _).symm
  have hne : grid ≠ [] := List.ne_nil_of_length_pos (by omega)
  have hlength := length_trapezoids (0.0 : α) hmap hne
  constructor
  case two_le => exact hlen
  case point_lt =>
    intro i j hij hj
    exact getD_lt_of_pairwise h hij hj
  case height_lt =>
    intro i j hij hj
    apply getD_lt_of_pairwise (pairwise_trapezoids _ hmap h hweights).1 hij
    rw [hlength]
    exact hj

/-- The factors of a table that is made for the clock of a run. -/
theorem factors_accumulate [Scalar.HasExp α] {begin max : α} {outputs : List α} {timebase : Int}
    (htb : 0 < timebase) (ht : Timeline.make begin max outputs timebase = .ok t) (hs : 2 ≤ samples)
    (c : CosmologyConfig α) : ∃ k, make c t samples = .ok k ∧ k.Spans t samples ∧
      (∀ kind first second third, k.factor t first second kind + k.factor t second third kind =
        k.factor t first third kind) ∧
      ((∀ x ∈ k.grid, 0 < c.expansion (Scalar.exp x)) → ∀ kind, k.Accumulates t kind) := by
  obtain ⟨edges, hsorted, hlen, rfl⟩ := Timeline.exists_edges_of_make ht
  refine ⟨_, if_neg (not_lt.2 hs), spans_gridOf hsorted hlen hs rfl, ?_, ?_⟩
  · intro kind first second third
    exact factor_add _ _ first second third kind
  · intro hpos kind
    apply accumulates (isOver_gridOf hsorted hlen htb hs rfl)
    obtain ⟨a, rest, rfl⟩ := List.exists_cons_of_length_pos (by omega : 0 < edges.length)
    have hcount : 0 < samples.toNat := by omega
    have hgrid := pairwise_gridOf hcount hsorted
    have hlong : 2 ≤ (gridOf samples.toNat (a :: rest)).length := by
      rw [length_gridOf]
      rw [List.length_cons] at hlen
      have hmul : 1 * 2 ≤ rest.length * samples.toNat := Nat.mul_le_mul (by omega) (by omega)
      omega
    have hascends := ascends_trapezoids hgrid hlong
      (fun x hx => hpos x (List.mem_toArray.2 hx)) kind
    cases kind with
    | gravity => exact hascends
    | hydro => exact hascends

def steadyBackground : CosmologyConfig ℝ := ⟨0, 1, 0, 1, 1, 1⟩

theorem factors_accumulate_sample : ∃ t k, Timeline.make (1 : ℝ) 3 [2] 4 = .ok t ∧
    make steadyBackground t 2 = .ok k ∧ k.grid.size = 5 ∧ 0 < k.factor t 3 5 .gravity ∧
      k.factor t 3 5 .gravity + k.factor t 5 9 .gravity = k.factor t 3 9 .gravity ∧
      k.factor t (-7) 0 .hydro = 0 ∧ k.factor t 8 100 .hydro = 0 := by
  have horder : Timeline.HasOrder (1 : ℝ) 3 := by
    rw [Timeline.HasOrder, ExactScalar.zero_eq]
    norm_num
  have hinner : Timeline.inner (1 : ℝ) 3 [2] = [2] := by
    have hinside : Timeline.isInside (1 : ℝ) 3 2 := Timeline.isInside_iff.2 (by norm_num)
    simp [Timeline.inner, hinside, Timeline.insertEdge]
  have hmake : Timeline.make (1 : ℝ) 3 [2] 4 = _ := Timeline.make_eq [2] horder hinner (by decide)
  have hexpansion (a : ℝ) : 0 < steadyBackground.expansion a := by
    change 0 < 1 * Real.sqrt (0 / (a * a * a) + (1.0 - 0 - 1) / (a * a) + 1)
    rw [ExactScalar.one_eq]
    norm_num
  obtain ⟨k, hk, hspans, hadd, hpos⟩ := factors_accumulate (by decide) hmake
    (by decide : (2 : Int) ≤ 2) steadyBackground
  have hgravity := hpos (fun x _ => hexpansion _) .gravity
  have hhydro := hpos (fun x _ => hexpansion _) .hydro
  refine ⟨_, k, hmake, hk, ?_, hgravity.pos 3 5 (by decide) (by decide) (by decide),
    hadd .gravity 3 5 9,
    hhydro.before (-7) 0 (by decide) (by decide), hhydro.behind 8 100 (by decide) (by decide)⟩
  have hsize := hspans.size_eq
  rw [Timeline.epochs_ofEdges] at hsize
  exact Int.ofNat.inj hsize

end BlockStep.KickTable
