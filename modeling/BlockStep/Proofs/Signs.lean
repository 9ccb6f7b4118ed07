import BlockStep.Proofs.MeshLimit
import BlockStep.Proofs.OneRank
import Mathlib.Algebra.Order.Field.Basic
import Mathlib.Algebra.Order.Field.Rat

namespace BlockStep

/-- What is known of signs, and that the cube root of a finite number is finite. -/
class Scalar.Signed (α : Type) [Scalar α] : Prop extends Scalar.Ordered α where
  not_mul_lt : ∀ x y : α, ¬ x < 0.0 → ¬ y < 0.0 → ¬ x * y < 0.0
  not_div_lt : ∀ x y : α, ¬ x < 0.0 → ¬ y < 0.0 → ¬ y == 0.0 → ¬ x / y < 0.0
  not_square_lt : ∀ x : α, ¬ pow x 2.0 < 0.0
  not_literal_lt : ∀ (m : Nat) (s : Bool) (e : Nat), ¬ (OfScientific.ofScientific m s e : α) < 0.0
  not_pi_lt : ¬ (pi : α) < 0.0
  three_ne_zero : ¬ (3.0 : α) == 0.0
  isFinite_root : ∀ x : α, ¬ x < 0.0 → isFinite x → isFinite (pow x (1.0 / 3.0))
  trunc_nonneg : ∀ x : α, isNaN x = false → ¬ x < 0.0 → 0 ≤ trunc x

theorem Scalar.zero_rat : (0.0 : Rat) = 0 := by decide +kernel

theorem Scalar.isFinite_rat (x : Rat) : Scalar.isFinite x := by
  rw [isFinite, isNaN_rat]
  rfl

open Scalar in
instance : Scalar.Signed Rat where
  not_mul_lt x y hx hy := by
    rw [zero_rat] at *
    exact Rat.not_lt.2 (Rat.mul_nonneg (Rat.not_lt.1 hx) (Rat.not_lt.1 hy))
  not_div_lt x y hx hy _ := by
    rw [zero_rat] at *
    exact Rat.not_lt.2 (div_nonneg (Rat.not_lt.1 hx) (Rat.not_lt.1 hy))
  not_square_lt x := by
    rw [zero_rat]
    refine Rat.not_lt.2 ?_
    show (0 : Rat) ≤ if (2.0 : Rat).den = 1 then x ^ (2.0 : Rat).num else 1
    have hden : (2.0 : Rat).den = 1 := by decide +kernel
    have hnum : (2.0 : Rat).num = 2 := by decide +kernel
    rw [if_pos hden, hnum]
    exact sq_nonneg x
  not_literal_lt m s e := by
    rw [zero_rat]
    exact Rat.not_lt.2 (Rat.ofScientific_nonneg m s e)
  not_pi_lt := by decide +kernel
  three_ne_zero := by decide +kernel
  isFinite_root _ _ _ := isFinite_rat _
  trunc_nonneg x _ hx := by
    rw [zero_rat] at hx
    have hnum : 0 ≤ x.num := Rat.num_nonneg.2 (Rat.not_lt.1 hx)
    exact Int.tdiv_nonneg hnum (Int.natCast_nonneg _)

variable {α : Type} [Scalar α] {m n : Nat}

namespace Scalar

variable {x y z : α}

theorem eq_of_quotient (h : quotient x y = .ok z) : ¬ y == 0.0 ∧ z = x / y := by
  rw [quotient] at h
  split at h
  · cases h
  next hy =>
    cases h
    exact ⟨hy, rfl⟩

theorem eq_of_power (h : power x y = .ok z) : z = pow x y := by
  simp only [power] at h
  split at h
  · cases h
  · split at h
    · cases h
    · split at h
      · cases h
      · cases h
        rfl

variable [Signed α]

open Signed

theorem exists_root (h : ¬ x < 0.0) : ∃ z, power x (1.0 / 3.0) = .ok z := by
  have hthird : ¬ (1.0 / 3.0 : α) < 0.0 :=
    not_div_lt 1.0 3.0 (not_literal_lt _ _ _) (not_literal_lt _ _ _) three_ne_zero
  refine ⟨pow x (1.0 / 3.0), ?_⟩
  simp only [power]
  rw [if_neg fun hz => hthird hz.2, if_neg fun hneg => h hneg.1, if_neg]
  rintro ⟨hfin, -, hno⟩
  rw [isFinite_root x h hfin] at hno
  cases hno

end Scalar

section Signed

variable [Scalar.Signed α]

open Scalar.Signed

theorem CosmologyConfig.not_criticalDensity_lt {c : CosmologyConfig α} (hg : ¬ c.gravity < 0.0)
    {d : α}
    (h : c.criticalDensity = .ok d) : ¬ d < 0.0 := by
  rw [criticalDensity] at h
  cases hs : Scalar.power c.hubble 2.0 with
  | error e =>
    rw [hs] at h
    cases h
  | ok square =>
    rw [hs] at h
    obtain ⟨hne, rfl⟩ := Scalar.eq_of_quotient h
    have hsquare : ¬ square < 0.0 := by
      rw [Scalar.eq_of_power hs]
      exact not_square_lt c.hubble
    refine not_div_lt _ _ (not_mul_lt _ _ (not_literal_lt _ _ _) hsquare) ?_ hne
    exact not_mul_lt _ _ (not_mul_lt _ _ (not_literal_lt _ _ _) not_pi_lt) hg

theorem Criterion.wholeTicks_nonneg {timebase : Int} (htb : 0 ≤ timebase) (ticks : α) :
    0 ≤ wholeTicks timebase ticks := by
  rw [wholeTicks]
  split
  · exact Int.le_refl 0
  next hnan =>
    have hlarger : Scalar.isNaN (Scalar.larger ticks 0.0) = false ∧
        ¬ Scalar.larger ticks 0.0 < 0.0 := by
      rw [Scalar.larger]
      split
      · exact ⟨Scalar.Ordered.isNaN_zero, Scalar.Ordered.lt_irrefl _⟩
      next hlt => exact ⟨Bool.eq_false_iff.2 hnan, hlt⟩
    rw [Scalar.lesser]
    split
    · exact trunc_nonneg _ (Scalar.Ordered.isNaN_ofInt _) (Scalar.Ordered.not_ofInt_lt_zero _ htb)
    · exact trunc_nonneg _ hlarger.1 hlarger.2

theorem Course.wish_nonneg {u : Setup α} {c : Course α} (htb : 0 ≤ u.timeline.timebase)
    (hm : 0 ≤ c.most) (p : Particle α) : 0 ≤ (c.wish u p).ticks := by
  rw [wish, Criterion.wish]
  cases hc : Criterion.common? u.config u.timeline c.most c.next.epoch with
  | none => exact Criterion.wholeTicks_nonneg htb _
  | some d =>
    rw [Criterion.common?] at hc
    split at hc
    · cases hc
      exact Int.le_refl 0
    · split at hc
      · cases hc
        exact hm
      · cases hc

theorem Course.want_nonneg {u : Setup α} {c : Course α} {store : Ranks m (Store α)}
    (hequal : u.config.step.equalSteps → ∃ l, c.least? = some l ∧ IsLeast (c.Steps u n store) l)
    (hown : ¬ u.config.step.equalSteps → c.least? = none) (htb : 0 ≤ u.timeline.timebase)
    (hm : 0 ≤ c.most) (p : Particle α) : 0 ≤ c.want u p := by
  rw [want]
  by_cases he : u.config.step.equalSteps
  · obtain ⟨l, hl, hleast⟩ := hequal he
    rw [hl]
    show 0 ≤ l
    rcases hleast.1 with rfl | ⟨i, q, -, -, rfl⟩
    · decide
    · exact wish_nonneg htb hm q
  · rw [hown he]
    exact wish_nonneg htb hm p

end Signed

/-- No mass is negative. -/
def Store.HasMasses (s : Store α) : Prop := ∀ p ∈ s, ¬ p.mass < (0.0 : α)

/-- A store whose particles have changed, but not their schedule and their last kicks, and none to a
negative mass. -/
structure Store.Eases (s s' : Store α) : Prop where
  marks : s'.marks = s.marks
  masses : s.HasMasses → s'.HasMasses

namespace Store.Eases

variable {s s' s'' : Store α}

theorem refl (s : Store α) : s.Eases s := ⟨rfl, id⟩

theorem trans (h : s.Eases s') (h' : s'.Eases s'') : s.Eases s'' :=
  ⟨h'.marks.trans h.marks, fun hs => h'.masses (h.masses hs)⟩

theorem map {f : Particle α → Particle α} (hf : ∀ p, (f p).mark = p.mark ∧ (f p).mass = p.mass)
    (s : Store α) : s.Eases (Array.map f s) := by
  refine ⟨Store.marks_map f (fun p => (hf p).1) s, fun hs p hp => ?_⟩
  obtain ⟨q, hq, rfl⟩ := Array.mem_map.1 hp
  rw [(hf q).2]
  exact hs q hq

end Store.Eases

/-- With masses that are not negative a glass is made on all ranks, or fails alike on all. -/
theorem Glass.joint_make_of_masses [Scalar.Signed α] {c : CosmologyConfig α} (ho : ¬ c.omega0 < 0.0)
    (hg : ¬ c.gravity < 0.0) {s : Ranks m (Store α)} (hs : ∀ i, (s i).HasMasses) :
    Joint (fun _ => True) (fun _ => False) (fun _ => make c) s
      fun _ s' => ∀ i, (s i).Eases (s' i) := by
  simp only [make]
  refine Joint.modify_bind (Joint.lift_bind (fun toLength _ => ?_) fun _ _ => trivial)
  refine Joint.get_bind (Joint.bind (Joint.reduce (Q := fun v s' =>
    v = (fun _ => v 0) ∧ s' = fun i => (s i).map reversed) ⟨rfl, rfl⟩) ?_)
  rintro all _ ⟨-, rfl⟩
  refine Joint.get_bind (Joint.lift_bind (fun critical hcritical => ?_) fun _ _ => trivial)
  have hmoved (i : Fin (m + 1)) (x y : α) : (s i).Eases (((s i).map reversed).map (moved x y)) :=
    (Store.Eases.map (f := reversed) (fun _ => ⟨rfl, rfl⟩) (s i)).trans
      (Store.Eases.map (f := moved x y) (fun _ => ⟨rfl, rfl⟩) _)
  by_cases hzero : c.omega0 * critical == 0.0
  · refine Joint.of_error (e := .divisionByZero) (fun i => Act.ends_bind.2 ?_) trivial
    rw [Scalar.quotient, if_pos hzero]
    exact Act.ends_lift_error.2 rfl
  · -- the mean spacing is the root of a number that is not negative
    have hdensity := Scalar.Signed.not_mul_lt _ _ ho
      (CosmologyConfig.not_criticalDensity_lt hg hcritical)
    have hmass (i : Fin (m + 1)) :
        ¬ (((s i).map reversed)[0]?.map (·.mass)).getD (0.0 : α) < 0.0 := by
      cases hp : ((s i).map reversed)[0]? with
      | none => exact Scalar.Ordered.lt_irrefl _
      | some p =>
        obtain ⟨q, hq, rfl⟩ := Array.mem_map.1 (Array.mem_of_getElem? hp)
        exact hs i q hq
    choose spacing hspacing using fun i =>
      Scalar.exists_root (Scalar.Signed.not_div_lt _ _ (hmass i) hdensity hzero)
    simp only [Scalar.quotient, if_neg hzero]
    refine Joint.bind_of_does (fun i => Act.does_lift.2 ⟨rfl, rfl⟩) ?_
    simp only [hspacing]
    exact Joint.tell_bind (Joint.modify_bind (Joint.pure fun i => hmoved i _ _))

end BlockStep
