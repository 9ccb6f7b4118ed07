import BlockStep.Proofs.Signs
import BlockStep.Proofs.Tiling

namespace BlockStep

variable {α σ β γ : Type} [Scalar α] {m n : Nat}

theorem Kind.isSome_position? {kind : Int} (h : Kind.Exists kind) :
    (Store.position? Kind.count kind).isSome := by
  obtain ⟨k, rfl⟩ := Int.eq_ofNat_of_zero_le h.1
  rw [Store.position?_of_lt (Int.ofNat_lt.1 h.2)]
  rfl

namespace Stepper

variable {u : Setup α} {s : Stepper α n} {next : Tick} {mesh : MeshStep} {ticks : Int}

/-- The rank has due gas whose steps depend on weights that cannot be computed. -/
def LacksWeights (u : Setup α) (ticks : Int) (s : Stepper α n) : Prop :=
  Criterion.common? u.config u.timeline ticks s.current.epoch = none ∧
    (∃ p ∈ s.activeParticles, p.isGas) ∧ ∀ w, s.instant.factors.gasWeights ≠ .ok w

theorem isMeasured_of_not_lacksWeights (h : s.Ready u next mesh) (hw : ¬ LacksWeights u ticks s) :
    ∀ p ∈ s.activeParticles,
      Criterion.IsMeasured u.config u.timeline s.instant ticks s.current.epoch p := by
  intro p hp hc
  refine ⟨fun hg => ?_, Kind.isSome_position? (h.fits p (h.mem_activeParticles.1 hp).1).2.2⟩
  by_contra hno
  exact hw ⟨hc, ⟨p, hp, hg⟩, not_exists.1 hno⟩

theorem does_allot_of_lacksWeights (h : LacksWeights u ticks s) {e : Fault}
    (he : s.instant.factors.gasWeights = .error e) : (allot u s ticks).Does s (.error e) s := by
  obtain ⟨hc, ⟨p, hp, hg⟩, -⟩ := h
  have hlengths : Criterion.lengths u.config u.timeline s.instant s.activeParticles
      s.current.epoch = .error e := by
    have hany : s.activeParticles.any Particle.isGas := List.any_eq_true.2 ⟨p, hp, hg⟩
    rw [Criterion.lengths, Criterion.weightsFor, if_pos hany, he]
    rfl
  refine Act.does_bind_error.2 (.inl ?_)
  simp only [Criterion.desired, hc]
  refine Act.does_bind_error.2 (.inl ?_)
  rw [hlengths]
  exact Act.does_lift.2 ⟨rfl, rfl⟩

/-- A rank that does not lack them comes to a reduction. -/
theorem waits_allot_carryOut [Scalar.Signed α] (hn : 2 ≤ n) (h : s.Ready u next mesh)
    (hw : ¬ LacksWeights u ticks s) (htb : 0 ≤ u.timeline.timebase) (ht : 0 ≤ ticks)
    (hk : u.kicker.isChecked → s.store.IsKicked) (toMiddle : Bool) :
    (do
      let a ← allot u s ticks
      carryOut u toMiddle s a).Waits s := by
  have hmeasured := isMeasured_of_not_lacksWeights h hw
  by_cases he : u.config.step.equalSteps
  · rw [allot, bind_assoc]
    refine Act.Ends.waits_bind ((Criterion.ends_desired _ _).mono (fun _ _ h => h) ?_) ?_
    · rintro e ⟨-, p, hp, hm⟩
      exact hm (hmeasured p hp)
    rintro _ t ⟨rfl, -, ht'⟩
    rw [ht', bind_assoc, commonSteps, if_pos he]
    exact ((Act.waits_reduce _ _ _).bind _).bind _
  · -- no step is negative, and no kick leaves a gap
    have hwish (p : Particle α) : 0 ≤ (s.wish u ticks p).ticks :=
      Course.wish_nonneg (u := u) (c := ⟨s.current, s.instant, ticks, none⟩) htb ht p
    refine Act.Ends.waits_bind ((ends_allot he hwish).mono (fun _ _ h => h) ?_) ?_
    · rintro e ⟨-, p, hp, hm⟩
      exact hm (hmeasured p hp)
    rintro _ t ⟨ht', rfl⟩
    rw [ht', carryOut, turns_allotted]
    refine Act.Ends.waits_bind ((ends_turnAll h hn toMiddle _).mono (fun _ _ h => h) ?_) ?_
    · rintro e ⟨-, hgap⟩
      exact hgap fun hc p hp _ => hk hc p hp
    · exact fun moved t _ => ((Act.waits_reduce _ _ _).bind _).bind _

end Stepper

end BlockStep
