import BlockStep.Proofs.Agreement
import BlockStep.Proofs.Desire

namespace BlockStep

variable {α σ β γ : Type}

namespace Act

/-- From every state the step ends with the same result, and the state stays. -/
def Yields (x : Act α σ β) (r : Except Fault β) : Prop := ∀ s, x.Does s r s

namespace Yields

variable {x : Act α σ β} {r : Except Fault β} {f : β → Act α σ γ} {g : β → Except Fault γ}

theorem pure (b : β) : (Pure.pure b : Act α σ β).Yields (.ok b) := fun _ => does_pure.2 ⟨rfl, rfl⟩

theorem lift (r : Except Fault β) : (Act.lift r : Act α σ β).Yields r :=
  fun _ => does_lift.2 ⟨rfl, rfl⟩

theorem bind (hx : x.Yields r) (hf : ∀ b, (f b).Yields (g b)) : (x >>= f).Yields (r >>= g) := by
  intro s
  cases r with
  | error e => exact does_bind_error.2 (.inl (hx s))
  | ok b =>
    have hb := hf b s
    show (x >>= f).Does s (g b) s
    cases hg : g b with
    | ok c =>
      rw [hg] at hb
      exact does_bind_ok.2 ⟨b, s, hx s, hb⟩
    | error e =>
      rw [hg] at hb
      exact does_bind_error.2 (.inr ⟨b, s, hx s, hb⟩)

theorem tell_bind {t : Event α} {f : Unit → Act α σ β} (h : (f ()).Yields r) :
    (Act.tell t >>= f).Yields r :=
  bind (r := .ok ()) (g := fun _ => r) (fun _ => does_tell.2 ⟨rfl, rfl⟩) fun _ => h

theorem foldlM {f : γ → β → Act α σ γ} {g : γ → β → Except Fault γ}
    (h : ∀ c b, (f c b).Yields (g c b)) (bs : List β) (c : γ) :
    (bs.foldlM f c).Yields (bs.foldlM g c) := by
  induction bs generalizing c with
  | nil => exact pure c
  | cons b bs ih =>
    rw [List.foldlM_cons, List.foldlM_cons]
    exact (h c b).bind ih

theorem ends {E : Fault → Prop} {s : σ} {R : β → σ → Prop} (h : x.Yields r)
    (hR : ∀ b, r = .ok b → R b s) (hE : ∀ e, r = .error e → E e) : x.Ends E s R := by
  cases r with
  | ok b => exact (h s).ends_ok.2 (hR b rfl)
  | error e => exact (h s).ends_error.2 (hE e rfl)

end Yields

end Act

variable [Scalar α] {m : Nat}

def KindStats.agreed (v : Ranks m (KindStats α)) : KindStats α where
  sums := Reduction.agreed .kindSums fun i => (v i).sums
  counts := Reduction.agreed (α := α) .kindCounts fun i => (v i).counts
  leasts := Reduction.agreed .kindLeasts fun i => (v i).leasts

theorem CosmologyConfig.isNumeric_criticalDensity {c : CosmologyConfig α} {e : Fault}
    (h : c.criticalDensity = .error e) : e.isNumeric := by
  rcases error_of_bind h with h | ⟨x, -, h⟩
  · exact Scalar.isNumeric_power h
  · exact Scalar.isNumeric_quotient h

namespace MeshStep

variable (c : Config α) (t : Timeline α) (f : TimeFactors α)

def limitOf (split critical : α) (s : KindStats α) (length : α) (kind : Fin 6) : Except Fault α :=
  if s.counts.get kind ≤ 0 then .ok length
  else do
    let between := spacing (s.leasts.get kind) (densityOf c critical kind)
    let v ← speed (s.sums.get kind) (s.counts.get kind)
    let most := kindLength c f (Scalar.lesser split between) v
    if (0.0 : α) < v ∧ some (kind.val : Int) ≠ c.mesh.fastKind ∧ most < length then .ok most
    else .ok length

def lengthOf (s : KindStats α) : Except Fault α := do
  let split ← splitScale c
  let critical ← c.cosmology.criticalDensity
  kinds.foldlM (limitOf c f split critical (s.merged c.features)) c.step.maxSize

/-- The next mesh step in ticks for joint numbers of the kinds. -/
def ticksOf (s : KindStats α) (epoch : Int) : Except Fault Int := do
  .ok (TickCount.roundDown (t.stepIn (← lengthOf c f s) epoch))

def nextOf (epoch : Int) (s : KindStats α) : Act α σ Int := do
  let split ← Act.lift (splitScale c)
  let critical ← Act.lift c.cosmology.criticalDensity
  let length ← kinds.foldlM (limit c f split critical (s.merged c.features)) c.step.maxSize
  let ticks := TickCount.roundDown (t.stepIn length epoch)
  Act.tell (.meshEstimated (t.length (Scalar.ofInt ticks) epoch) c.step.maxSize)
  if ticks = 0 then Act.tell (.meshVanishes length)
  pure ticks

variable {c t f}

theorem yields_limit (split critical : α) (s : KindStats α) (length : α) (kind : Fin 6) :
    (limit c f split critical s length kind : Act α σ α).Yields
      (limitOf c f split critical s length kind) := by
  rw [limit, limitOf]
  split
  · exact .pure length
  · refine .bind (.lift _) fun v => ?_
    refine Act.Yields.tell_bind ?_
    dsimp only
    split
    · exact .pure _
    · exact .pure _

theorem yields_nextOf (epoch : Int) (s : KindStats α) :
    (nextOf c t f epoch s : Act α σ Int).Yields (ticksOf c t f s epoch) := by
  rw [nextOf, ticksOf, lengthOf]
  simp only [bind_assoc]
  refine .bind (.lift _) fun split => .bind (.lift _) fun critical => ?_
  refine .bind (.foldlM (yields_limit split critical _) _ _) fun length => ?_
  refine Act.Yields.tell_bind ?_
  split
  · exact Act.Yields.tell_bind (.pure _)
  · exact .pure _

theorem isNumeric_lengthOf {s : KindStats α} {e : Fault} (h : lengthOf c f s = .error e) :
    e.isNumeric := by
  rcases error_of_bind h with h | ⟨split, -, h⟩
  · rw [splitScale] at h
    split at h
    · cases h
    · cases h
      rfl
  rcases error_of_bind h with h | ⟨critical, -, h⟩
  · exact CosmologyConfig.isNumeric_criticalDensity h
  generalize c.step.maxSize = length at h
  generalize kinds = ks at h
  induction ks generalizing length with
  | nil => cases h
  | cons k ks ih =>
    rw [List.foldlM_cons] at h
    rcases error_of_bind h with h | ⟨l, -, h⟩
    · rw [limitOf] at h
      split at h
      · cases h
      rcases error_of_bind h with h | ⟨v, -, h⟩
      · simp only [speed] at h
        split at h
        · cases h
          rfl
        · cases h
      · dsimp only at h
        split at h <;> cases h
    · exact ih l h

theorem isNumeric_ticksOf {s : KindStats α} {epoch : Int} {e : Fault}
    (h : ticksOf c t f s epoch = .error e) : e.isNumeric := by
  rcases error_of_bind h with h | ⟨l, -, h⟩
  · exact isNumeric_lengthOf h
  · cases h

theorem isStep_of_ticksOf {s : KindStats α} {epoch ticks : Int}
    (h : ticksOf c t f s epoch = .ok ticks) : TickCount.IsStep ticks := by
  rw [ticksOf] at h
  cases hl : lengthOf c f s with
  | error e => rw [hl] at h; cases h
  | ok l =>
    rw [hl] at h
    cases h
    exact TickCount.isStep_roundDown _

theorem ticksOf_le_of_stepIn {s : KindStats α} {epoch ticks : Int} (h0 : 0 ≤ t.timebase)
    (hstep : ∀ length, t.stepIn length epoch ≤ t.timebase) (h : ticksOf c t f s epoch = .ok ticks) :
    ticks ≤ t.timebase := by
  rw [ticksOf] at h
  cases hl : lengthOf c f s with
  | error e => rw [hl] at h; cases h
  | ok l =>
    rw [hl] at h
    cases h
    by_cases hpos : 0 ≤ t.stepIn l epoch
    · exact Int.le_trans (TickCount.roundDown_le hpos) (hstep l)
    · rw [TickCount.roundDown_of_not_pos (by omega)]
      exact h0

theorem unmeasured?_eq_none {store : Store α} (h : ∀ p ∈ store, Kind.Exists p.kind) :
    unmeasured? store = none := by
  have hneg : ¬ store.any fun p => p.kind < 0 := by
    rw [Array.any_eq_true']
    rintro ⟨p, hp, hlt⟩
    have := (h p hp).1
    have := of_decide_eq_true hlt
    omega
  have hout : ¬ store.any fun p => !decide (Kind.Exists p.kind) && decide ((0.0 : α) < p.mass) := by
    rw [Array.any_eq_true']
    rintro ⟨p, hp, hout⟩
    simp [h p hp] at hout
  rw [unmeasured?, if_neg hneg, if_neg hout]

theorem next_eq {store : Store α} (h : ∀ p ∈ store, Kind.Exists p.kind) (epoch : Int) :
    (next c t f store epoch : Act α σ Int) = (do
      let sums ← Act.reduce .kindSums (KindStats.ofStore store).sums
      let counts ← Act.reduce .kindCounts (KindStats.ofStore store).counts
      let leasts ← Act.reduce .kindLeasts (KindStats.ofStore store).leasts
      nextOf c t f epoch ⟨sums, counts, leasts⟩) := by
  simp only [next, longest, nextOf, unmeasured?_eq_none h, KindStats.reduced, bind_assoc, pure_bind]

end MeshStep

theorem Joint.meshNext {A E : Fault → Prop} {c : Config α} {t : Timeline α} {f : TimeFactors α}
    {epoch : Int} {store : Ranks m (Store α)} (hk : ∀ i, ∀ p ∈ store i, Kind.Exists p.kind)
    {s : Ranks m σ}
    (hA : ∀ e,
      MeshStep.ticksOf c t f (.agreed fun i => .ofStore (store i)) epoch = .error e → A e) :
    Joint A E (fun i => (MeshStep.next c t f (store i) epoch : Act α σ Int)) s fun ticks s' =>
      s' = s ∧ ∀ i, MeshStep.ticksOf c t f (.agreed fun i => .ofStore (store i)) epoch =
        .ok (ticks i) := by
  simp only [MeshStep.next_eq (hk _)]
  refine Joint.bind (Joint.reduce (Q := fun v s' => s' = s ∧ v = fun _ => Reduction.agreed .kindSums
    fun i => (KindStats.ofStore (store i)).sums) ⟨rfl, rfl⟩) ?_
  rintro _ s₁ ⟨rfl, rfl⟩
  refine Joint.bind (Joint.reduce (Q := fun v s' => s' = s₁ ∧ v = fun _ => Reduction.agreed (α := α)
    .kindCounts fun i => (KindStats.ofStore (store i)).counts) ⟨rfl, rfl⟩) ?_
  rintro _ s₂ ⟨rfl, rfl⟩
  refine Joint.bind (Joint.reduce (Q := fun v s' => s' = s₂ ∧
    v = fun _ => Reduction.agreed .kindLeasts
    fun i => (KindStats.ofStore (store i)).leasts) ⟨rfl, rfl⟩) ?_
  rintro _ s₃ ⟨rfl, rfl⟩
  cases ht : MeshStep.ticksOf c t f (.agreed fun i => .ofStore (store i)) epoch with
  | error e =>
    refine Joint.of_error (e := e) (fun i => (MeshStep.yields_nextOf epoch _).ends ?_ ?_) (hA e ht)
    · intro b hb
      cases ht.symm.trans hb
    · intro e' he
      exact Except.error.inj (he.symm.trans ht)
  | ok b =>
    refine Joint.of_ends (R := fun i b' t' => t' = s₃ i ∧ b' = b) (fun i => ?_)
      fun b' s' h => ⟨funext fun i => (h i).1, fun i => by rw [(h i).2]⟩
    refine (MeshStep.yields_nextOf epoch _).ends (fun b' hb => ⟨rfl, ?_⟩) fun e he => ?_
    · exact Except.ok.inj (hb.symm.trans ht)
    · cases ht.symm.trans he

end BlockStep
