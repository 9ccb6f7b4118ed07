import BlockStep.Proofs.Endings

namespace BlockStep

variable {α σ τ β γ : Type} [Scalar α] {m : Nat}

/-- Programs that do the same whatever a rank can get back from its reductions. -/
inductive Collective.Alike : Collective α β → Collective α β → Prop
  | done (b : β) : Alike (.done b) (.done b)
  | reduce (r : Reduction) (v : r.Carrier α) {next next' : r.Carrier α → Collective α β}
      (h : ∀ w, r.Answers v w → Alike (next w) (next' w)) :
      Alike (.reduce r v next) (.reduce r v next')

namespace Collective.Alike

variable {c c' : Collective α β} {R : β → Prop} {f f' : β → Collective α γ}

theorem refl (c : Collective α β) : c.Alike c := by
  induction c with
  | done b => exact .done b
  | reduce r v next ih => exact .reduce r v fun w _ => ih w

theorem symm (h : c.Alike c') : c'.Alike c := by
  induction h with
  | done b => exact .done b
  | reduce r v _ ih => exact .reduce r v ih

theorem bind (h : c.Alike c') (hc : c.All R) (hf : ∀ b, R b → (f b).Alike (f' b)) :
    (c.bind f).Alike (c'.bind f') := by
  induction h with
  | done b => exact hf b hc
  | reduce r v _ ih => exact .reduce r v fun w hw => ih w hw (hc w hw)

theorem map (h : c.Alike c') (g : β → γ) : (c.map g).Alike (c'.map g) := by
  rw [map_eq_bind, map_eq_bind]
  exact h.bind (all_true c) fun b _ => refl (.done (g b))

theorem isSome_waiting? (h : c.Alike c') (r : Reduction) :
    (c.waiting? r).isSome = (c'.waiting? r).isSome := by
  cases h with
  | done b => rfl
  | reduce r' v h =>
    simp only [waiting?]
    split <;> rfl

theorem of_reduce {r : Reduction} {v v' : r.Carrier α} {next next' : r.Carrier α → Collective α β}
    (h : (Collective.reduce r v next).Alike (.reduce r v' next')) :
    v = v' ∧ ∀ w, r.Answers v w → (next w).Alike (next' w) := by
  cases h with
  | reduce _ _ hnext => exact ⟨rfl, hnext⟩

/-- Ranks whose programs are alike come to rest alike. -/
theorem settle {cs cs' : Ranks m (Collective α β)} (h : ∀ i, (cs i).Alike (cs' i))
    (i : Fin (m + 1)) : (Collective.settle cs i).Alike (Collective.settle cs' i) := by
  have hfirst := h 0
  generalize hc : cs 0 = c at hfirst
  generalize hc' : cs' 0 = c' at hfirst
  induction hfirst generalizing cs cs' with
  | done b =>
    rw [settle_of_done hc, settle_of_done hc']
    exact h i
  | reduce r v hnext ih =>
    by_cases hw : ∀ j : Fin m, ((cs j.succ).waiting? r).isSome
    · have hw' : ∀ j : Fin m, ((cs' j.succ).waiting? r).isSome := fun j =>
        (h j.succ).isSome_waiting? r ▸ hw j
      obtain ⟨vs, nexts, rfl⟩ := exists_eq_reduce hc hw
      obtain ⟨vs', nexts', rfl⟩ := exists_eq_reduce hc' hw'
      obtain rfl : vs = vs' := funext fun j => (h j).of_reduce.1
      have hnexts (j : Fin (m + 1)) : (nexts j (r.agreed vs)).Alike (nexts' j (r.agreed vs)) :=
        (h j).of_reduce.2 _ (r.answers_agreed vs j)
      rw [settle_reduce, settle_reduce]
      cases hc
      cases hc'
      exact ih _ (r.answers_agreed vs 0) hnexts rfl rfl
    · have hw' : ¬ ∀ j : Fin m, ((cs' j.succ).waiting? r).isSome := fun hall =>
        hw fun j => (h j.succ).isSome_waiting? r ▸ hall j
      rw [settle_of_parted hc hw, settle_of_parted hc' hw']
      exact h i

end Collective.Alike

namespace Act

/-- From a state the steps do the same whatever a rank can get back from its reductions. -/
def Alike (x y : Act α σ β) (s : σ) : Prop := (x s).Alike (y s)

namespace Alike

variable {E : Fault → σ → Prop} {x y : Act α σ β} {s : σ} {R : β → σ → Prop}

theorem refl (x : Act α σ β) (s : σ) : x.Alike x s := Collective.Alike.refl _

theorem bind {f g : β → Act α σ γ} (h : x.Alike y s) (hx : x.Always E s R)
    (hf : ∀ b t, R b t → (f b).Alike (g b) t) : (x >>= f).Alike (y >>= g) s := by
  apply Collective.Alike.bind h hx
  intro o ho
  obtain ⟨r, t, es⟩ := o
  cases r with
  | ok b => exact (hf b t ho).map (Outcome.after es)
  | error e => exact .done _

theorem bind_left {f g : β → Act α σ γ} (hx : x.Always E s R)
    (hf : ∀ b t, R b t → (f b).Alike (g b) t) : (x >>= f).Alike (x >>= g) s :=
  (refl x s).bind hx hf

theorem bind_right (h : x.Alike y s) (f : β → Act α σ γ) : (x >>= f).Alike (y >>= f) s :=
  h.bind (always_true x s) fun b t _ => refl (f b) t

theorem get_bind {f g : σ → Act α σ γ} (h : (f s).Alike (g s) s) :
    (get >>= f).Alike (get >>= g) s := by
  apply bind_left (E := fun _ _ => True) (R := fun b t => b = s ∧ t = s)
  · exact always_get.2 ⟨rfl, rfl⟩
  · rintro _ _ ⟨rfl, rfl⟩
    exact h

theorem within {part : σ → τ} {put : τ → σ → σ} {x y : Act α τ β} (h : x.Alike y (part s)) :
    (x.within part put).Alike (y.within part put) s := h.map _

theorem onFault (h : x.Alike y s) (change : σ → σ) :
    (x.onFault change).Alike (y.onFault change) s := h.map _

end Alike

end Act

namespace Ranks

theorem settles_iff_of_alike {x y : Ranks m (Act α σ β)} {s : Ranks m σ}
    (h : ∀ i, (x i).Alike (y i) (s i)) {i : Fin (m + 1)} {r : Except Fault β} {t : σ} :
    Settles x s i r t ↔ Settles y s i r t := by
  have hdone {c c' : Collective α (Outcome α σ β)} (h : c.Alike c') {o : Outcome α σ β}
      (hc : c = .done o) : c' = .done o := by
    subst hc
    cases h
    rfl
  have hsettle := Collective.Alike.settle h i
  constructor
  · rintro ⟨o, ho, hr⟩
    exact ⟨o, hdone hsettle ho, hr⟩
  · rintro ⟨o, ho, hr⟩
    exact ⟨o, hdone hsettle.symm ho, hr⟩

end Ranks

end BlockStep
