import BlockStep.Proofs.Does
import BlockStep.Stepper

namespace BlockStep

/-- The number of degenerate steps, if these are the fault. -/
def Fault.degenerate? : Fault → Option Int
  | .degenerateSteps count => some count
  | _ => none

/-- A fault of the arithmetic or of the tables: neither a degenerate step nor a gap between
kicks. -/
def Fault.isPlain : Fault → Bool
  | .degenerateSteps _ | .kickGap .. => false
  | _ => true

/-- A fault of the arithmetic, or of a particle whose kind has no place. -/
def Fault.isNumeric : Fault → Bool
  | .divisionByZero | .realOverflow | .powerNotReal | .rootOfNegative | .outOfRange => true
  | _ => false

/-- A kick does not start where the last one of its particle ended. -/
def Fault.isGap : Fault → Bool
  | .kickGap .. => true
  | _ => false

/-- A fault of the choice of new steps. -/
def Fault.IsChoice (e : Fault) : Prop := e.isNumeric ∨ e = .wordOverflow ∨ e = .negativeTicks

namespace Fault

variable {e : Fault}

theorem degenerate?_of_isPlain (h : e.isPlain) : e.degenerate? = none := by
  cases e with
  | degenerateSteps count => cases h
  | _ => rfl

theorem degenerate?_of_isGap (h : e.isGap) : e.degenerate? = none := by
  cases e with
  | kickGap id last start => rfl
  | _ => cases h

theorem isPlain_of_isNumeric (h : e.isNumeric) : e.isPlain := by
  cases e with
  | divisionByZero | realOverflow | powerNotReal | rootOfNegative | outOfRange => rfl
  | _ => cases h

theorem IsChoice.isPlain (h : e.IsChoice) : e.isPlain := by
  rcases h with h | rfl | rfl
  · exact isPlain_of_isNumeric h
  · rfl
  · rfl

theorem degenerate?_of_isNumeric (h : e.isNumeric) : e.degenerate? = none :=
  degenerate?_of_isPlain (isPlain_of_isNumeric h)

theorem not_isGap_of_isPlain (h : e.isPlain) : ¬ e.isGap := by
  cases e with
  | kickGap id last start => cases h
  | _ => exact Bool.false_ne_true

theorem not_isGap_of_isNumeric (h : e.isNumeric) : ¬ e.isGap :=
  not_isGap_of_isPlain (isPlain_of_isNumeric h)

end Fault

variable {α σ : Type} [Scalar α]

theorem error_of_bind {β γ : Type} {x : Except Fault β} {f : β → Except Fault γ} {e : Fault}
    (h : x >>= f = .error e) : x = .error e ∨ ∃ b, x = .ok b ∧ f b = .error e := by
  cases x with
  | error e' =>
    cases h
    exact .inl rfl
  | ok b => exact .inr ⟨b, rfl, h⟩

namespace Scalar

variable {x y : α} {e : Fault}

theorem isNumeric_quotient (h : quotient x y = .error e) : e.isNumeric := by
  rw [quotient] at h
  split at h
  · cases h
    rfl
  · cases h

theorem isNumeric_power (h : power x y = .error e) : e.isNumeric := by
  simp only [power] at h
  split at h
  · cases h
    rfl
  · split at h
    · cases h
      rfl
    · split at h
      · cases h
        rfl
      · cases h

end Scalar

theorem TimeFactors.isNumeric_gasWeights {f : TimeFactors α} {e : Fault}
    (h : f.gasWeights = .error e) : e.isNumeric := by
  rcases error_of_bind h with h | ⟨x, -, h⟩
  · exact Scalar.isNumeric_power h
  rcases error_of_bind h with h | ⟨y, -, h⟩
  · exact Scalar.isNumeric_quotient h
  rcases error_of_bind h with h | ⟨z, -, h⟩
  · exact Scalar.isNumeric_power h
  · cases h

namespace Criterion

variable (c : Config α) (t : Timeline α) (i : Instant α) (most epoch : Int)

/-- The weights of gas, where they can be computed. -/
def weights : GasWeights α :=
  match i.factors.gasWeights with
  | .ok w => w
  | .error _ => default

/-- The step that a particle asks for. -/
def wish (p : Particle α) : DesiredStep α :=
  match common? c t most epoch with
  | some d => d
  | none => stepOf c.step t most epoch (longest c t i (weights i) epoch p)

def IsMeasured (p : Particle α) : Prop :=
  common? c t most epoch = none →
    (p.isGas → ∃ w, i.factors.gasWeights = .ok w) ∧ (Store.position? Kind.count p.kind).isSome

variable {c t i most epoch}

theorem common?_eq_none (ht : c.step.treeGravity) (h0 : 0 < most) :
    common? c t most epoch = none := by
  rw [common?, if_neg (by omega), ht]
  rfl

theorem longest_of_not_isGas {p : Particle α} (h : ¬ p.isGas) (w w' : GasWeights α) :
    longest c t i w epoch p = longest c t i w' epoch p := by
  simp only [longest, bounds, gravityBound, acceleration, if_neg h]

theorem weightsFor_spec (ps : List (Particle α)) :
    (∃ w, weightsFor i.factors ps = .ok w ∧ (∀ p ∈ ps, p.isGas → i.factors.gasWeights = .ok w)) ∨
      ∃ e, weightsFor i.factors ps = .error e ∧ e.isNumeric ∧
        ∃ p ∈ ps, p.isGas ∧ ¬ ∃ w, i.factors.gasWeights = .ok w := by
  rw [weightsFor]
  by_cases h : ps.any Particle.isGas
  · rw [if_pos h]
    obtain ⟨p, hp, hg⟩ := List.any_eq_true.1 h
    cases hw : i.factors.gasWeights with
    | ok w => exact .inl ⟨w, rfl, fun _ _ _ => rfl⟩
    | error e =>
      refine .inr ⟨e, rfl, TimeFactors.isNumeric_gasWeights hw, p, hp, hg, ?_⟩
      rintro ⟨w, hw'⟩
      cases hw'
  · rw [if_neg h]
    exact .inl ⟨default, rfl, fun p hp hg => absurd (List.any_eq_true.2 ⟨p, hp, hg⟩) h⟩

theorem lengths_spec (ps : List (Particle α)) (hc : common? c t most epoch = none) :
    (lengths c t i ps epoch = .ok (ps.map (longest c t i (weights i) epoch)) ∧
      ∀ p ∈ ps, IsMeasured c t i most epoch p) ∨
    ∃ e, lengths c t i ps epoch = .error e ∧ e.isNumeric ∧
      ∃ p ∈ ps, ¬ IsMeasured c t i most epoch p := by
  rw [lengths]
  rcases weightsFor_spec (i := i) ps with ⟨w, hw, hgas⟩ | ⟨e, he, hp, p, hmem, hg, hno⟩
  · by_cases hk : ps.any fun p => (Store.position? Kind.count p.kind).isNone
    · right
      obtain ⟨p, hmem, hk'⟩ := List.any_eq_true.1 hk
      refine ⟨.outOfRange, ?_, rfl, p, hmem, fun hm => ?_⟩
      · rw [hw]
        simp only [bind, Except.bind, if_pos hk]
      · have := (hm hc).2
        rw [Option.isNone_iff_eq_none.1 hk'] at this
        cases this
    · left
      refine ⟨?_, fun p hmem _ => ⟨fun hg => ⟨w, hgas p hmem hg⟩, ?_⟩⟩
      · rw [hw]
        simp only [bind, Except.bind, if_neg hk]
        congr 1
        apply List.map_congr_left
        intro p hmem
        by_cases hg : p.isGas
        · have : weights i = w := by rw [weights, hgas p hmem hg]
          rw [this]
        · exact longest_of_not_isGas hg _ _
      · cases hs : Store.position? Kind.count p.kind with
        | some j => rfl
        | none => exact absurd (List.any_eq_true.2 ⟨p, hmem, by rw [hs]; rfl⟩) hk
  · right
    refine ⟨e, ?_, hp, p, hmem, fun hm => hno ((hm hc).1 hg)⟩
    rw [he]
    rfl

theorem ends_desired (ps : List (Particle α)) (s : σ) :
    (desired c t i ps most epoch : Act α σ _).Ends
      (fun e => e.isNumeric ∧ ∃ p ∈ ps, ¬ IsMeasured c t i most epoch p) s
      fun ds s' => ds = ps.map (wish c t i most epoch) ∧
        (∀ p ∈ ps, IsMeasured c t i most epoch p) ∧ s' = s := by
  rw [desired]
  cases hc : common? c t most epoch with
  | some d =>
    refine Act.ends_pure.2 ⟨?_, fun p _ hn => ?_, rfl⟩
    · apply List.map_congr_left
      intro p _
      simp only [wish, hc]
    · rw [hc] at hn
      cases hn
  | none =>
    simp only [ownSteps, Act.ends_bind]
    rcases lengths_spec (i := i) ps hc with ⟨hl, hm⟩ | ⟨e, hl, he⟩
    · rw [hl, Act.ends_lift_ok, Act.ends_tellAll, Act.ends_tellAll, Act.ends_pure, List.map_map]
      refine ⟨?_, hm, rfl⟩
      apply List.map_congr_left
      intro p _
      simp only [wish, hc, Function.comp_apply]
    · rw [hl, Act.ends_lift_error]
      exact he

end Criterion

namespace Assign

variable {n : Nat} {mask : List Bool}

section

omit [Scalar α]

theorem does_placeList_of_neg {desired : List Int} (pairs : List (Int × Int))
    (h : ∃ d ∈ desired, d < 0) (s : σ) :
    (placeList n mask desired pairs : Act α σ _).Does s (.error .negativeTicks) s := by
  have hany : desired.any (· < 0) := by
    rw [List.any_eq_true]
    obtain ⟨d, hd, hneg⟩ := h
    exact ⟨d, hd, decide_eq_true hneg⟩
  rw [placeList, if_pos hany]
  exact Act.does_bind_error.2 (.inl (Act.does_fail.2 ⟨rfl, rfl⟩))

theorem does_placeList (hm : mask.length = n) {desired : List Int} (pairs : List (Int × Int))
    (h : ∀ d ∈ desired, 0 ≤ d) (s : σ) : (placeList n mask desired pairs : Act α σ _).Does s
      (.ok (pairs.map fun e => place n (fun b => mask.getD b false) e.1 e.2)) s := by
  have hany : ¬ desired.any (· < 0) := by
    rw [List.any_eq_true]
    rintro ⟨d, hd, hneg⟩
    exact absurd (h d hd) (Int.not_le.2 (of_decide_eq_true hneg))
  have hmask : (mask.length != n) = false := by
    rw [hm, bne_self_eq_false]
  simp only [placeList, if_neg hany, hmask, Bool.and_false, Bool.false_eq_true, if_false]
  split
  · exact Act.does_bind_ok.2 ⟨(), s, Act.does_tell.2 ⟨rfl, rfl⟩, Act.does_pure.2 ⟨rfl, rfl⟩⟩
  · exact Act.does_pure.2 ⟨rfl, rfl⟩

theorem ends_placeList (hm : mask.length = n) (ps : List (Particle α))
    (want : Particle α → Int) (s : σ) :
    (placeList n mask (ps.map want) (ps.map fun p => (want p, p.bin)) : Act α σ _).Ends
      (fun e => e = .negativeTicks ∧ ∃ p ∈ ps, want p < 0) s
      fun placed s' =>
        placed = (ps.map fun p => place n (fun b => mask.getD b false) (want p) p.bin) ∧
          (∀ p ∈ ps, 0 ≤ want p) ∧ s' = s := by
  by_cases hneg : ∃ p ∈ ps, want p < 0
  · obtain ⟨p, hp, hlt⟩ := hneg
    refine .inr ⟨_, s, does_placeList_of_neg _ ⟨want p, List.mem_map_of_mem hp, hlt⟩ s, rfl,
      p, hp, hlt⟩
  · have hpos : ∀ p ∈ ps, 0 ≤ want p := fun p hp => Int.not_lt.1 fun hlt => hneg ⟨p, hp, hlt⟩
    refine .inl ⟨_, s, does_placeList hm _ (fun d hd => ?_) s, List.map_map, hpos, rfl⟩
    obtain ⟨p, hp, rfl⟩ := List.mem_map.1 hd
    exact hpos p hp

end

end Assign

end BlockStep
