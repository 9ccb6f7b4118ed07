import BlockStep.Proofs.Always

namespace BlockStep

variable {α σ β γ : Type} [Scalar α]

theorem Reduction.answers_self (r : Reduction) (v : r.Carrier α) : r.Answers v v :=
  ⟨0, fun _ => v, 0, rfl, rfl⟩

theorem Collective.All.alone {R : β → Prop} {c : Collective α β} (h : c.All R) : R c.alone := by
  induction c with
  | done b => exact h
  | reduce r v next ih => exact ih v (h v (r.answers_self v))

namespace Act

variable {E E' : Fault → σ → Prop} {x : Act α σ β} {s : σ} {R R' : β → σ → Prop}

omit [Scalar α] in
/-- A rank without others ends with a result and a state for which `R`, or with a fault and a state
for which `E`. -/
def Alone (E : Fault → σ → Prop) (x : Act α σ β) (s : σ) (R : β → σ → Prop) : Prop :=
  Outcome.Is E R (x s).alone

theorem Always.alone (h : x.Always E s R) : x.Alone E s R := Collective.All.alone h

omit [Scalar α]

theorem Alone.mono (h : x.Alone E s R) (hR : ∀ b t, R b t → R' b t) (hE : ∀ e t, E e t → E' e t) :
    x.Alone E' s R' := by
  rw [Alone, Outcome.Is] at h ⊢
  split
  next b hb =>
    rw [hb] at h
    exact hR b _ h
  next e he =>
    rw [he] at h
    exact hE e _ h

theorem Alone.and (h : x.Alone E s R) (h' : x.Alone E' s R') :
    x.Alone (fun e t => E e t ∧ E' e t) s fun b t => R b t ∧ R' b t := by
  rw [Alone, Outcome.Is] at h h' ⊢
  split
  next b hb =>
    rw [hb] at h h'
    exact ⟨h, h'⟩
  next e he =>
    rw [he] at h h'
    exact ⟨h, h'⟩

theorem Does.alone_ok {b : β} {t : σ} (h : x.Does s (.ok b) t) : x.Alone E s R ↔ R b t := by
  obtain ⟨es, h⟩ := h
  rw [Alone, h]
  rfl

theorem Does.alone_error {e : Fault} {t : σ} (h : x.Does s (.error e) t) :
    x.Alone E s R ↔ E e t := by
  obtain ⟨es, h⟩ := h
  rw [Alone, h]
  rfl

@[simp] theorem alone_pure {b : β} : (Pure.pure b : Act α σ β).Alone E s R ↔ R b s :=
  (does_pure.2 ⟨rfl, rfl⟩).alone_ok

@[simp] theorem alone_get {R : σ → σ → Prop} : (get : Act α σ σ).Alone E s R ↔ R s s :=
  (does_get.2 ⟨rfl, rfl⟩).alone_ok

@[simp] theorem alone_set {t : σ} {R : Unit → σ → Prop} :
    (set t : Act α σ Unit).Alone E s R ↔ R () t := (does_set.2 ⟨rfl, rfl⟩).alone_ok

@[simp] theorem alone_modify {f : σ → σ} {R : Unit → σ → Prop} :
    (modify f : Act α σ Unit).Alone E s R ↔ R () (f s) := (does_modify.2 ⟨rfl, rfl⟩).alone_ok

@[simp] theorem alone_tell {t : Event α} {R : Unit → σ → Prop} :
    (tell t : Act α σ Unit).Alone E s R ↔ R () s := (does_tell.2 ⟨rfl, rfl⟩).alone_ok

@[simp] theorem alone_reduce {r : Reduction} {v : r.Carrier α} {R : r.Carrier α → σ → Prop} :
    (reduce r v : Act α σ (r.Carrier α)).Alone E s R ↔ R v s := Iff.rfl

@[simp] theorem alone_bind {f : β → Act α σ γ} {P : γ → σ → Prop} :
    (x >>= f).Alone E s P ↔ x.Alone E s fun b t => (f b).Alone E t P := by
  change Outcome.Is E P (Collective.answer _ ((x s).bind _)) ↔
    Outcome.Is E _ (Collective.answer _ (x s))
  rw [Collective.answer_bind]
  generalize (x s).answer (fun _ v => v) = o
  obtain ⟨r, t, es⟩ := o
  cases r with
  | error e => rfl
  | ok b =>
    change Outcome.Is E P (Collective.answer _ ((f b t).map _)) ↔ _
    rw [Collective.answer_map]
    rfl

theorem alone_onFault {change : σ → σ} :
    (x.onFault change).Alone E s R ↔ x.Alone (fun e t => E e (change t)) s R := by
  change Outcome.Is E R (Collective.answer _ ((x s).map _)) ↔
    Outcome.Is _ R (Collective.answer _ (x s))
  rw [Collective.answer_map]
  generalize (x s).answer (fun _ v => v) = o
  obtain ⟨r, t, es⟩ := o
  cases r <;> rfl

end Act

end BlockStep
