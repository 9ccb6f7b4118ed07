import BlockStep.Act

namespace BlockStep.Act

variable {α σ τ β γ : Type}

/-- Without a reduction the step ends with a result and a state. -/
def Does (x : Act α σ β) (s : σ) (r : Except Fault β) (s' : σ) : Prop :=
  ∃ es, x s = .done ⟨r, s', es⟩

/-- Without a reduction the step ends with a result and a state for which `R`, or with a fault for
which `E`. -/
def Ends (E : Fault → Prop) (x : Act α σ β) (s : σ) (R : β → σ → Prop) : Prop :=
  (∃ b s', x.Does s (.ok b) s' ∧ R b s') ∨ ∃ e s', x.Does s (.error e) s' ∧ E e

section Parts

variable {s s' s'' : σ} {r : Except Fault β} {b : β} {c : γ} {e : Fault}

@[simp] theorem does_pure : (Pure.pure b : Act α σ β).Does s r s' ↔ r = .ok b ∧ s' = s := by
  simp [Does, Pure.pure, pure, eq_comm]

@[simp] theorem does_get {r : Except Fault σ} :
    (get : Act α σ σ).Does s r s' ↔ r = .ok s ∧ s' = s := by
  simp [Does, get, eq_comm]

@[simp] theorem does_set {t : σ} {r : Except Fault Unit} :
    (set t : Act α σ Unit).Does s r s' ↔ r = .ok () ∧ s' = t := by
  simp [Does, set, eq_comm]

@[simp] theorem does_modify {f : σ → σ} {r : Except Fault Unit} :
    (modify f : Act α σ Unit).Does s r s' ↔ r = .ok () ∧ s' = f s := by
  simp [Does, modify, eq_comm]

@[simp] theorem does_tell {t : Event α} {r : Except Fault Unit} :
    (tell t : Act α σ Unit).Does s r s' ↔ r = .ok () ∧ s' = s := by
  simp [Does, tell, eq_comm]

@[simp] theorem does_tellAll {ts : List (Event α)} {r : Except Fault Unit} :
    (tellAll ts : Act α σ Unit).Does s r s' ↔ r = .ok () ∧ s' = s := by
  simp [Does, tellAll, eq_comm]

@[simp] theorem does_fail : (fail e : Act α σ β).Does s r s' ↔ r = .error e ∧ s' = s := by
  simp [Does, fail, eq_comm]

@[simp] theorem does_lift {x : Except Fault β} :
    (lift x : Act α σ β).Does s r s' ↔ r = x ∧ s' = s := by
  simp [Does, lift, eq_comm]

theorem does_bind_ok {x : Act α σ β} {f : β → Act α σ γ} :
    (x >>= f).Does s (.ok c) s'' ↔ ∃ b s', x.Does s (.ok b) s' ∧ (f b).Does s' (.ok c) s'' := by
  constructor
  · rintro ⟨es, h⟩
    change (x s).bind _ = _ at h
    cases hx : x s with
    | reduce r v next => rw [hx] at h; cases h
    | done o =>
      obtain ⟨r, s', es'⟩ := o
      rw [hx, Collective.bind] at h
      cases r with
      | error e => cases h
      | ok b =>
        refine ⟨b, s', ⟨es', hx⟩, ?_⟩
        change (f b s').map _ = _ at h
        cases hf : f b s' with
        | reduce r v next => rw [hf] at h; cases h
        | done o =>
          rw [hf, Collective.map] at h
          obtain ⟨r, t, es''⟩ := o
          cases h
          exact ⟨es'', hf⟩
  · rintro ⟨b, s', ⟨es, hx⟩, ⟨es', hf⟩⟩
    refine ⟨es ++ es', ?_⟩
    change (x s).bind _ = _
    rw [hx, Collective.bind]
    change (f b s').map _ = _
    rw [hf]
    rfl

theorem does_bind_error {x : Act α σ β} {f : β → Act α σ γ} :
    (x >>= f).Does s (.error e) s'' ↔ x.Does s (.error e) s'' ∨
      ∃ b s', x.Does s (.ok b) s' ∧ (f b).Does s' (.error e) s'' := by
  constructor
  · rintro ⟨es, h⟩
    change (x s).bind _ = _ at h
    cases hx : x s with
    | reduce r v next => rw [hx] at h; cases h
    | done o =>
      obtain ⟨r, s', es'⟩ := o
      rw [hx, Collective.bind] at h
      cases r with
      | error e' => cases h; exact .inl ⟨es', hx⟩
      | ok b =>
        refine .inr ⟨b, s', ⟨es', hx⟩, ?_⟩
        change (f b s').map _ = _ at h
        cases hf : f b s' with
        | reduce r v next => rw [hf] at h; cases h
        | done o =>
          rw [hf, Collective.map] at h
          obtain ⟨r, t, es''⟩ := o
          cases h
          exact ⟨es'', hf⟩
  · rintro (⟨es, hx⟩ | ⟨b, s', ⟨es, hx⟩, ⟨es', hf⟩⟩)
    · refine ⟨es, ?_⟩
      change (x s).bind _ = _
      rw [hx]
      rfl
    · refine ⟨es ++ es', ?_⟩
      change (x s).bind _ = _
      rw [hx, Collective.bind]
      change (f b s').map _ = _
      rw [hf]
      rfl

/-- After a step that succeeds, a sequence ends as its second part does. -/
theorem Does.bind {x : Act α σ β} {f : β → Act α σ γ} {r : Except Fault γ}
    (hx : x.Does s (.ok b) s') (hf : (f b).Does s' r s'') : (x >>= f).Does s r s'' := by
  cases r with
  | ok c => exact does_bind_ok.2 ⟨b, s', hx, hf⟩
  | error e => exact does_bind_error.2 (.inr ⟨b, s', hx, hf⟩)

theorem does_within {part : σ → τ} {put : τ → σ → σ} {x : Act α τ β} :
    (x.within part put).Does s r s' ↔ ∃ t, x.Does (part s) r t ∧ s' = put t s := by
  constructor
  · rintro ⟨es, h⟩
    rw [within] at h
    cases hx : x (part s) with
    | reduce r v next => rw [hx] at h; cases h
    | done o => rw [hx] at h; obtain ⟨r, t, es'⟩ := o; cases h; exact ⟨t, ⟨es', hx⟩, rfl⟩
  · rintro ⟨t, ⟨es, hx⟩, rfl⟩
    exact ⟨es, by rw [within, hx]; rfl⟩

theorem Does.unique {x : Act α σ β} {r' : Except Fault β} (h : x.Does s r s')
    (h' : x.Does s r' s'') : r = r' ∧ s' = s'' := by
  obtain ⟨es, h⟩ := h
  obtain ⟨es', h'⟩ := h'
  cases h.symm.trans h'
  exact ⟨rfl, rfl⟩

end Parts

section Ends

variable {E E' : Fault → Prop} {x : Act α σ β} {s : σ} {R R' : β → σ → Prop}

theorem Ends.mono (h : x.Ends E s R) (hR : ∀ b s', R b s' → R' b s') (hE : ∀ e, E e → E' e) :
    x.Ends E' s R' := by
  rcases h with ⟨b, s', hd, hb⟩ | ⟨e, s', hd, he⟩
  · exact .inl ⟨b, s', hd, hR b s' hb⟩
  · exact .inr ⟨e, s', hd, hE e he⟩

theorem Does.ends_ok {b : β} {s' : σ} (h : x.Does s (.ok b) s') : x.Ends E s R ↔ R b s' := by
  constructor
  · rintro (⟨c, t, hx, hc⟩ | ⟨e, t, hx, -⟩)
    · obtain ⟨hb, rfl⟩ := h.unique hx
      cases hb
      exact hc
    · cases (h.unique hx).1
  · exact fun hb => .inl ⟨b, s', h, hb⟩

theorem Does.ends_error {e : Fault} {s' : σ} (h : x.Does s (.error e) s') :
    x.Ends E s R ↔ E e := by
  constructor
  · rintro (⟨c, t, hx, -⟩ | ⟨e', t, hx, he⟩)
    · cases (h.unique hx).1
    · cases (h.unique hx).1
      exact he
  · exact fun he => .inr ⟨e, s', h, he⟩

@[simp] theorem ends_pure {b : β} : (Pure.pure b : Act α σ β).Ends E s R ↔ R b s :=
  (does_pure.2 ⟨rfl, rfl⟩).ends_ok

@[simp] theorem ends_get {R : σ → σ → Prop} : (get : Act α σ σ).Ends E s R ↔ R s s :=
  (does_get.2 ⟨rfl, rfl⟩).ends_ok

@[simp] theorem ends_set {t : σ} {R : Unit → σ → Prop} :
    (set t : Act α σ Unit).Ends E s R ↔ R () t := (does_set.2 ⟨rfl, rfl⟩).ends_ok

@[simp] theorem ends_modify {f : σ → σ} {R : Unit → σ → Prop} :
    (modify f : Act α σ Unit).Ends E s R ↔ R () (f s) := (does_modify.2 ⟨rfl, rfl⟩).ends_ok

@[simp] theorem ends_tell {t : Event α} {R : Unit → σ → Prop} :
    (tell t : Act α σ Unit).Ends E s R ↔ R () s := (does_tell.2 ⟨rfl, rfl⟩).ends_ok

@[simp] theorem ends_tellAll {ts : List (Event α)} {R : Unit → σ → Prop} :
    (tellAll ts : Act α σ Unit).Ends E s R ↔ R () s := (does_tellAll.2 ⟨rfl, rfl⟩).ends_ok

@[simp] theorem ends_fail {e : Fault} : (fail e : Act α σ β).Ends E s R ↔ E e :=
  (does_fail.2 ⟨rfl, rfl⟩).ends_error

@[simp] theorem ends_lift_ok {b : β} : (lift (.ok b) : Act α σ β).Ends E s R ↔ R b s :=
  (does_lift.2 ⟨rfl, rfl⟩).ends_ok

@[simp] theorem ends_lift_error {e : Fault} : (lift (.error e) : Act α σ β).Ends E s R ↔ E e :=
  (does_lift.2 ⟨rfl, rfl⟩).ends_error

theorem ends_lift {r : Except Fault β} (hR : ∀ b, r = .ok b → R b s)
    (hE : ∀ e, r = .error e → E e) :
    (lift r : Act α σ β).Ends E s R := by
  cases r with
  | ok b => exact ends_lift_ok.2 (hR b rfl)
  | error e => exact ends_lift_error.2 (hE e rfl)

@[simp] theorem ends_bind {f : β → Act α σ γ} {P : γ → σ → Prop} :
    (x >>= f).Ends E s P ↔ x.Ends E s fun b s' => (f b).Ends E s' P := by
  constructor
  · rintro (⟨c, s'', hd, hc⟩ | ⟨e, s'', hd, he⟩)
    · obtain ⟨b, s', hx, hf⟩ := does_bind_ok.1 hd
      exact .inl ⟨b, s', hx, .inl ⟨c, s'', hf, hc⟩⟩
    · rcases does_bind_error.1 hd with hx | ⟨b, s', hx, hf⟩
      · exact .inr ⟨e, s'', hx, he⟩
      · exact .inl ⟨b, s', hx, .inr ⟨e, s'', hf, he⟩⟩
  · rintro (⟨b, s', hx, ⟨c, s'', hf, hc⟩ | ⟨e, s'', hf, he⟩⟩ | ⟨e, s', hx, he⟩)
    · exact .inl ⟨c, s'', does_bind_ok.2 ⟨b, s', hx, hf⟩, hc⟩
    · exact .inr ⟨e, s'', does_bind_error.2 (.inr ⟨b, s', hx, hf⟩), he⟩
    · exact .inr ⟨e, s', does_bind_error.2 (.inl hx), he⟩

@[simp] theorem ends_within {part : σ → τ} {put : τ → σ → σ} {x : Act α τ β} :
    (x.within part put).Ends E s R ↔ x.Ends E (part s) fun b t => R b (put t s) := by
  simp only [Ends, does_within]
  constructor
  · rintro (⟨b, s', ⟨t, hd, rfl⟩, hb⟩ | ⟨e, s', ⟨t, hd, -⟩, he⟩)
    · exact .inl ⟨b, t, hd, hb⟩
    · exact .inr ⟨e, t, hd, he⟩
  · rintro (⟨b, t, hd, hb⟩ | ⟨e, t, hd, he⟩)
    · exact .inl ⟨b, _, ⟨t, hd, rfl⟩, hb⟩
    · exact .inr ⟨e, _, ⟨t, hd, rfl⟩, he⟩

end Ends

theorem bind_congr_apply {x y : Act α σ β} {s : σ} (h : x s = y s) (f : β → Act α σ γ) :
    (x >>= f) s = (y >>= f) s := by
  change (x s).bind _ = (y s).bind _
  rw [h]

theorem onFault_bind (change : σ → σ) (x : Act α σ β) (f : β → Act α σ γ) :
    (x >>= f).onFault change = x.onFault change >>= fun b => (f b).onFault change := by
  funext s
  change ((x s).bind _).map _ = ((x s).map _).bind _
  rw [Collective.map_eq_bind, Collective.map_eq_bind, Collective.bind_assoc, Collective.bind_assoc]
  congr 1
  funext o
  obtain ⟨r, t, es⟩ := o
  cases r with
  | error e => rfl
  | ok b =>
    simp only [onFault, Collective.map_eq_bind, Collective.bind_assoc, Collective.bind]
    congr 1
    funext o
    obtain ⟨r, t, es⟩ := o
    cases r <;> rfl

end BlockStep.Act
