import BlockStep.Proofs.Does
import BlockStep.Proofs.Meeting

namespace BlockStep

variable {α σ τ β γ : Type} [Scalar α] {m : Nat}

/-- The ranks meet until all have results and states for which `Q`, or all the same fault for which
`A`, or until one of them ends by a fault for which `E`. -/
def Joint (A E : Fault → Prop) (x : Ranks m (Act α σ β)) (s : Ranks m σ)
    (Q : Ranks m β → Ranks m σ → Prop) : Prop :=
  Collective.Meets
    (fun o => (∃ b s', (∀ i, (o i).result = .ok (b i) ∧ (o i).state = s' i) ∧ Q b s') ∨
      ∃ e, (∀ i, (o i).result = .error e) ∧ A e)
    (fun o => ∃ e, o.result = .error e ∧ E e) fun i => x i (s i)

namespace Joint

variable {A E : Fault → Prop} {x : Ranks m (Act α σ β)} {s : Ranks m σ}
  {Q Q' : Ranks m β → Ranks m σ → Prop}

theorem mono (h : Joint A E x s Q) (hQ : ∀ b s', Q b s' → Q' b s') : Joint A E x s Q' := by
  refine Collective.Meets.mono h (fun o ho => ?_) fun _ ha => ha
  rcases ho with ⟨b, s', ho, hb⟩ | he
  · exact .inl ⟨b, s', ho, hQ b s' hb⟩
  · exact .inr he

theorem mono_alike {A' : Fault → Prop} (h : Joint A E x s Q) (hA : ∀ e, A e → A' e) :
    Joint A' E x s Q := by
  refine Collective.Meets.mono h (fun o ho => ?_) fun _ ha => ha
  rcases ho with hb | ⟨e, ho, he⟩
  · exact .inl hb
  · exact .inr ⟨e, ho, hA e he⟩

/-- A fault that all ranks have is also one by which a rank ends on its own. -/
theorem fold (h : Joint (fun e => A e ∨ E e) E x s Q) : Joint A E x s Q := by
  refine Collective.Meets.mono_or h fun o ho => ?_
  rcases ho with hb | ⟨e, ho, hA | hE⟩
  · exact .inl (.inl hb)
  · exact .inl (.inr ⟨e, ho, hA⟩)
  · exact .inr ⟨0, e, ho 0, hE⟩

theorem bind {f : Ranks m (β → Act α σ γ)} {P : Ranks m γ → Ranks m σ → Prop}
    (h : Joint A E x s Q) (hf : ∀ b s', Q b s' → Joint A E (fun i => f i (b i)) s' P) :
    Joint A E (fun i => x i >>= f i) s P := by
  refine Collective.Meets.bind h ?_ ?_
  · rintro o (⟨b, s', ho, hb⟩ | ⟨e, ho, he⟩)
    · obtain ⟨es, rfl⟩ : ∃ es : Ranks m _,
          o = fun i => (⟨.ok (b i), s' i, es i⟩ : Outcome α σ β) := by
        refine ⟨fun i => (o i).events, funext fun i => ?_⟩
        rw [← (ho i).1, ← (ho i).2]
      refine (hf b s' hb).map ?_ ?_
      · rintro o (⟨c, s'', ho, hc⟩ | ⟨e, ho, he⟩)
        · exact .inl ⟨c, s'', ho, hc⟩
        · exact .inr ⟨e, ho, he⟩
      · rintro i o ⟨e, he, hE⟩
        exact ⟨e, he, hE⟩
    · obtain ⟨t, es, rfl⟩ : ∃ (t : Ranks m σ) (es : Ranks m _),
          o = fun i => (⟨.error e, t i, es i⟩ : Outcome α σ β) := by
        refine ⟨fun i => (o i).state, fun i => (o i).events, funext fun i => ?_⟩
        rw [← ho i]
      exact .ended (.inr ⟨e, fun _ => rfl, he⟩)
  · rintro i ⟨r, s', es⟩ ⟨e, he, hE⟩
    cases he
    exact ⟨_, rfl, e, rfl, hE⟩

/-- Ranks that take no part in a reduction go their own ways. -/
theorem of_ends {R : (i : Fin (m + 1)) → β → σ → Prop} (hx : ∀ i, (x i).Ends E (s i) (R i))
    (h : ∀ b s', (∀ i, R i (b i) (s' i)) → Q b s') : Joint A E x s Q := by
  by_cases hok : ∀ i, ∃ b s', (x i).Does (s i) (.ok b) s' ∧ R i b s'
  · choose b s' hd hR using hok
    choose es hes using id hd
    unfold Joint
    rw [funext hes]
    exact .ended (.inl ⟨b, s', fun _ => ⟨rfl, rfl⟩, h b s' hR⟩)
  · obtain ⟨i, hi⟩ := not_forall.1 hok
    rcases hx i with ho | ⟨e, s', ⟨es, hd⟩, he⟩
    · exact absurd ho hi
    · exact .strayed i hd ⟨e, rfl, he⟩

theorem pure {b : Ranks m β} (h : Q b s) :
    Joint A E (fun i => (Pure.pure (b i) : Act α σ β)) s Q := by
  refine of_ends (R := fun i b' t => b' = b i ∧ t = s i) (fun _ => Act.ends_pure.2 ⟨rfl, rfl⟩) ?_
  intro b' t hb
  obtain rfl : b' = b := funext fun i => (hb i).1
  obtain rfl : t = s := funext fun i => (hb i).2
  exact h

section Steps

variable {P : Ranks m γ → Ranks m σ → Prop}

theorem bind_of_does {f : Ranks m (β → Act α σ γ)} {b : Ranks m β} {t : Ranks m σ}
    (hx : ∀ i, (x i).Does (s i) (.ok (b i)) (t i)) (h : Joint A E (fun i => f i (b i)) t P) :
    Joint A E (fun i => x i >>= f i) s P := by
  refine bind (Q := fun b' t' => b' = b ∧ t' = t) ?_ ?_
  · refine of_ends (R := fun i b' t' => b' = b i ∧ t' = t i)
      (fun i => (hx i).ends_ok.2 ⟨rfl, rfl⟩) ?_
    exact fun b' t' hb => ⟨funext fun i => (hb i).1, funext fun i => (hb i).2⟩
  · rintro b' t' ⟨hb, ht⟩
    rw [hb, ht]
    exact h

theorem get_bind {f : Ranks m (σ → Act α σ γ)} (h : Joint A E (fun i => f i (s i)) s P) :
    Joint A E (fun i => Act.get >>= f i) s P :=
  bind_of_does (fun _ => Act.does_get.2 ⟨rfl, rfl⟩) h

variable {f : Ranks m (Unit → Act α σ γ)}

theorem set_bind {t : Ranks m σ} (h : Joint A E (fun i => f i ()) t P) :
    Joint A E (fun i => Act.set (t i) >>= f i) s P :=
  bind_of_does (fun _ => Act.does_set.2 ⟨rfl, rfl⟩) h

theorem modify_bind {g : Ranks m (σ → σ)} (h : Joint A E (fun i => f i ()) (fun i => g i (s i)) P) :
    Joint A E (fun i => Act.modify (g i) >>= f i) s P :=
  bind_of_does (fun _ => Act.does_modify.2 ⟨rfl, rfl⟩) h

theorem tell_bind {e : Ranks m (Event α)} (h : Joint A E (fun i => f i ()) s P) :
    Joint A E (fun i => Act.tell (e i) >>= f i) s P :=
  bind_of_does (fun _ => Act.does_tell.2 ⟨rfl, rfl⟩) h

end Steps

theorem of_error {e : Fault} (hx : ∀ i, (x i).Ends (· = e) (s i) fun _ _ => False) (he : A e) :
    Joint A E x s Q := by
  have hd (i : Fin (m + 1)) : ∃ s', (x i).Does (s i) (.error e) s' := by
    rcases hx i with ⟨b, s', -, hb⟩ | ⟨e', s', hd, rfl⟩
    · exact hb.elim
    · exact ⟨s', hd⟩
  choose s' hd using hd
  choose es hes using id hd
  unfold Joint
  rw [funext hes]
  exact .ended (.inr ⟨e, fun _ => rfl, he⟩)

theorem lift_bind {y : Except Fault β} {f : Ranks m (β → Act α σ γ)}
    {P : Ranks m γ → Ranks m σ → Prop}
    (h : ∀ b, y = .ok b → Joint A E (fun i => f i b) s P) (hA : ∀ e, y = .error e → A e) :
    Joint A E (fun i => Act.lift y >>= f i) s P := by
  cases y with
  | ok b => exact bind_of_does (fun _ => Act.does_lift.2 ⟨rfl, rfl⟩) (h b rfl)
  | error e => exact of_error (fun _ => Act.ends_bind.2 (Act.ends_lift_error.2 rfl)) (hA e rfl)

theorem reduce {r : Reduction} {v : Ranks m (r.Carrier α)}
    {Q : Ranks m (r.Carrier α) → Ranks m σ → Prop} (h : Q (fun _ => r.agreed v) s) :
    Joint A E (fun i => Act.reduce r (v i)) s Q :=
  .met (.ended (.inl ⟨_, s, fun _ => ⟨rfl, rfl⟩, h⟩))

theorem within {part : σ → τ} {put : τ → σ → σ} {x : Ranks m (Act α τ β)}
    (h : Joint A E x (fun i => part (s i)) fun b t => Q b fun i => put (t i) (s i)) :
    Joint A E (fun i => (x i).within part put) s Q := by
  refine Collective.Meets.map h ?_ fun _ _ ha => ha
  rintro o (⟨b, _, ho, hb⟩ | ⟨e, ho, he⟩)
  · exact .inl ⟨b, _, fun i => ⟨(ho i).1, congrArg (put · (s i)) (ho i).2⟩, hb⟩
  · exact .inr ⟨e, ho, he⟩

theorem onFault {change : σ → σ} (h : Joint A E x s Q) :
    Joint A E (fun i => (x i).onFault change) s Q := by
  refine Collective.Meets.map h ?_ ?_
  · rintro o (⟨b, s', ho, hb⟩ | ⟨e, ho, he⟩)
    · refine .inl ⟨b, s', fun i => ?_, hb⟩
      simp only [(ho i).1, (ho i).2, and_self]
    · refine .inr ⟨e, fun i => ?_, he⟩
      simp only [ho i]
  · rintro i o ⟨e, he, hE⟩
    refine ⟨e, ?_, hE⟩
    simp only [he]

end Joint

end BlockStep
