import BlockStep.Proofs.Does
import BlockStep.Proofs.Meeting

namespace BlockStep

variable {α σ τ β γ : Type} [Scalar α] {m : Nat}

/-- What a rank that hands in `v` can get back. -/
def Reduction.Answers (r : Reduction) (v w : r.Carrier α) : Prop :=
  ∃ (m : Nat) (vs : Ranks m (r.Carrier α)) (i : Fin (m + 1)), vs i = v ∧ r.agreed vs = w

theorem Reduction.answers_agreed (r : Reduction) (vs : Ranks m (r.Carrier α)) (i : Fin (m + 1)) :
    r.Answers (vs i) (r.agreed vs) := ⟨m, vs, i, rfl, rfl⟩

namespace Collective

/-- Whatever the other ranks hand in, the program ends with a result for which `R`. -/
def All (R : β → Prop) : Collective α β → Prop
  | done b => R b
  | reduce r v next => ∀ w : r.Carrier α, r.Answers v w → All R (next w)

variable {R R' : β → Prop} {S : γ → Prop} {c : Collective α β}

theorem All.mono (h : c.All R) (hR : ∀ b, R b → R' b) : c.All R' := by
  induction c with
  | done b => exact hR b h
  | reduce r v next ih => exact fun w hw => ih w (h w hw)

theorem All.and (h : c.All R) (h' : c.All R') : c.All fun b => R b ∧ R' b := by
  induction c with
  | done b => exact ⟨h, h'⟩
  | reduce r v next ih => exact fun w hw => ih w (h w hw) (h' w hw)

theorem all_true (c : Collective α β) : c.All fun _ => True := by
  induction c with
  | done b => trivial
  | reduce r v next ih => exact fun w _ => ih w

theorem all_congr (h : ∀ b, R b ↔ R' b) : c.All R ↔ c.All R' :=
  ⟨fun hc => hc.mono fun b => (h b).1, fun hc => hc.mono fun b => (h b).2⟩

theorem all_bind {f : β → Collective α γ} : (c.bind f).All S ↔ c.All fun b => (f b).All S := by
  induction c with
  | done b => rfl
  | reduce r v next ih => exact forall_congr' fun w => imp_congr_right fun _ => ih w

theorem all_map {f : β → γ} : (c.map f).All S ↔ c.All fun b => S (f b) := by
  rw [map_eq_bind, all_bind]
  rfl

/-- What holds whatever the answers are holds where the ranks come to rest. -/
theorem All.of_settle {R : Ranks m (β → Prop)} {cs : Ranks m (Collective α β)}
    (h : ∀ i, (cs i).All (R i)) {i : Fin (m + 1)} {b : β} (hs : settle cs i = done b) : R i b := by
  induction cs using settle_induction with
  | rest cs hrest =>
    have hi := h i
    rw [hrest] at hs
    rwa [hs] at hi
  | met r v next ih =>
    rw [settle_reduce] at hs
    exact ih (fun j => h j _ (r.answers_agreed v j)) hs

end Collective

namespace Act

/-- A result and a state for which `R`, or a fault and a state for which `E`. -/
def Outcome.Is (E : Fault → σ → Prop) (R : β → σ → Prop) (o : Outcome α σ β) : Prop :=
  match o.result with
  | .ok b => R b o.state
  | .error e => E e o.state

/-- Whatever the other ranks hand in, the step ends with a result and a state for which `R`, or with
a fault and a state for which `E`. -/
def Always (E : Fault → σ → Prop) (x : Act α σ β) (s : σ) (R : β → σ → Prop) : Prop :=
  (x s).All (Outcome.Is E R)

section Always

variable {E E' : Fault → σ → Prop} {x : Act α σ β} {s s' : σ} {R R' : β → σ → Prop}

theorem Always.mono (h : x.Always E s R) (hR : ∀ b s', R b s' → R' b s')
    (hE : ∀ e s', E e s' → E' e s') : x.Always E' s R' := by
  refine Collective.All.mono h fun o ho => ?_
  obtain ⟨r, t, es⟩ := o
  cases r with
  | ok b => exact hR b t ho
  | error e => exact hE e t ho

theorem Always.and (h : x.Always E s R) (h' : x.Always E' s R') :
    x.Always (fun e t => E e t ∧ E' e t) s fun b t => R b t ∧ R' b t := by
  refine (Collective.All.and h h').mono fun o ho => ?_
  obtain ⟨r, t, es⟩ := o
  cases r <;> exact ho

theorem always_true (x : Act α σ β) (s : σ) : x.Always (fun _ _ => True) s fun _ _ => True := by
  refine (Collective.all_true _).mono fun o _ => ?_
  obtain ⟨r, t, es⟩ := o
  cases r <;> trivial

theorem Does.always_ok {b : β} (h : x.Does s (.ok b) s') : x.Always E s R ↔ R b s' := by
  obtain ⟨es, h⟩ := h
  rw [Always, h]
  rfl

theorem Does.always_error {e : Fault} (h : x.Does s (.error e) s') :
    x.Always E s R ↔ E e s' := by
  obtain ⟨es, h⟩ := h
  rw [Always, h]
  rfl

theorem Ends.always {E : Fault → Prop} (h : x.Ends E s R) : x.Always (fun e _ => E e) s R := by
  rcases h with ⟨b, t, hd, hb⟩ | ⟨e, t, hd, he⟩
  · exact hd.always_ok.2 hb
  · exact hd.always_error.2 he

@[simp] theorem always_pure {b : β} : (Pure.pure b : Act α σ β).Always E s R ↔ R b s :=
  (does_pure.2 ⟨rfl, rfl⟩).always_ok

@[simp] theorem always_get {R : σ → σ → Prop} : (get : Act α σ σ).Always E s R ↔ R s s :=
  (does_get.2 ⟨rfl, rfl⟩).always_ok

@[simp] theorem always_set {t : σ} {R : Unit → σ → Prop} :
    (set t : Act α σ Unit).Always E s R ↔ R () t := (does_set.2 ⟨rfl, rfl⟩).always_ok

@[simp] theorem always_modify {f : σ → σ} {R : Unit → σ → Prop} :
    (modify f : Act α σ Unit).Always E s R ↔ R () (f s) := (does_modify.2 ⟨rfl, rfl⟩).always_ok

@[simp] theorem always_tell {t : Event α} {R : Unit → σ → Prop} :
    (tell t : Act α σ Unit).Always E s R ↔ R () s := (does_tell.2 ⟨rfl, rfl⟩).always_ok

@[simp] theorem always_tellAll {ts : List (Event α)} {R : Unit → σ → Prop} :
    (tellAll ts : Act α σ Unit).Always E s R ↔ R () s := (does_tellAll.2 ⟨rfl, rfl⟩).always_ok

@[simp] theorem always_fail {e : Fault} : (fail e : Act α σ β).Always E s R ↔ E e s :=
  (does_fail.2 ⟨rfl, rfl⟩).always_error

theorem always_lift {r : Except Fault β} (hR : ∀ b, r = .ok b → R b s)
    (hE : ∀ e, r = .error e → E e s) : (lift r : Act α σ β).Always E s R := by
  cases r with
  | ok b => exact (does_lift.2 ⟨rfl, rfl⟩).always_ok.2 (hR b rfl)
  | error e => exact (does_lift.2 ⟨rfl, rfl⟩).always_error.2 (hE e rfl)

theorem always_lift_ok {b : β} : (lift (.ok b) : Act α σ β).Always E s R ↔ R b s :=
  (does_lift.2 ⟨rfl, rfl⟩).always_ok

@[simp] theorem always_reduce {r : Reduction} {v : r.Carrier α} {R : r.Carrier α → σ → Prop} :
    (reduce r v : Act α σ (r.Carrier α)).Always E s R ↔ ∀ w, r.Answers v w → R w s := Iff.rfl

@[simp] theorem always_bind {f : β → Act α σ γ} {P : γ → σ → Prop} :
    (x >>= f).Always E s P ↔ x.Always E s fun b s' => (f b).Always E s' P := by
  change ((x s).bind _).All _ ↔ _
  rw [Collective.all_bind]
  refine Collective.all_congr fun o => ?_
  obtain ⟨r, t, es⟩ := o
  cases r with
  | ok b => exact Collective.all_map
  | error e => rfl

@[simp] theorem always_within {part : σ → τ} {put : τ → σ → σ} {x : Act α τ β} :
    (x.within part put).Always E s R ↔
      x.Always (fun e t => E e (put t s)) (part s) fun b t => R b (put t s) := by
  change ((x (part s)).map _).All _ ↔ _
  rw [Collective.all_map]
  refine Collective.all_congr fun o => ?_
  obtain ⟨r, t, es⟩ := o
  cases r <;> rfl

theorem always_onFault {change : σ → σ} :
    (x.onFault change).Always E s R ↔ x.Always (fun e t => E e (change t)) s R := by
  change ((x s).map _).All _ ↔ _
  rw [Collective.all_map]
  refine Collective.all_congr fun o => ?_
  obtain ⟨r, t, es⟩ := o
  cases r <;> rfl

end Always

/-- Whatever the other ranks hand in, the step leaves `g` of the state as it is. -/
def Keeps (g : σ → γ) (x : Act α σ β) : Prop :=
  ∀ s, x.Always (fun _ t => g t = g s) s fun _ t => g t = g s

namespace Keeps

variable {δ : Type} {g : σ → γ} {x : Act α σ β}

theorem pure (b : β) : (Pure.pure b : Act α σ β).Keeps g := fun _ => always_pure.2 rfl

theorem get : (Act.get : Act α σ σ).Keeps g := fun _ => always_get.2 rfl

theorem tell (t : Event α) : (Act.tell t : Act α σ Unit).Keeps g := fun _ => always_tell.2 rfl

theorem tellAll (ts : List (Event α)) : (Act.tellAll ts : Act α σ Unit).Keeps g :=
  fun _ => always_tellAll.2 rfl

theorem fail (e : Fault) : (Act.fail e : Act α σ β).Keeps g := fun _ => always_fail.2 rfl

theorem lift (r : Except Fault β) : (Act.lift r : Act α σ β).Keeps g :=
  fun _ => always_lift (fun _ _ => rfl) fun _ _ => rfl

theorem reduce (r : Reduction) (v : r.Carrier α) : (Act.reduce r v : Act α σ _).Keeps g :=
  fun _ => always_reduce.2 fun _ _ => rfl

theorem modify {f : σ → σ} (h : ∀ s, g (f s) = g s) : (Act.modify f : Act α σ Unit).Keeps g :=
  fun s => always_modify.2 (h s)

theorem within {part : σ → τ} {put : τ → σ → σ} (h : ∀ t s, g (put t s) = g s) (x : Act α τ β) :
    (x.within part put).Keeps g := by
  intro s
  rw [always_within]
  refine (Collective.all_true _).mono fun o _ => ?_
  obtain ⟨r, t, es⟩ := o
  cases r <;> exact h t s

theorem bind {f : β → Act α σ δ} (hx : x.Keeps g) (hf : ∀ b, (f b).Keeps g) :
    (x >>= f).Keeps g := by
  intro s
  rw [always_bind]
  refine (hx s).mono (fun b t ht => ?_) fun _ _ ht => ht
  have hb := hf b t
  rwa [ht] at hb

/-- What stays, also in part. -/
theorem map (h : x.Keeps g) (f : γ → δ) : x.Keeps fun s => f (g s) :=
  fun s => (h s).mono (fun _ _ ht => congrArg f ht) fun _ _ ht => congrArg f ht

theorem fail_bind (e : Fault) (f : β → Act α σ δ) : (Act.fail e >>= f).Keeps g :=
  fun _ => always_bind.2 (always_fail.2 rfl)

/-- A step that reads the state first. -/
theorem get_bind {f : σ → Act α σ δ} (hf : ∀ s, (f s).Always (fun _ t => g t = g s) s
    fun _ t => g t = g s) : (Act.get >>= f).Keeps g := by
  intro s
  rw [always_bind, always_get]
  exact hf s

theorem set_bind {f : Unit → Act α σ δ} {s t : σ} (h : g t = g s) (hf : (f ()).Keeps g) :
    (Act.set t >>= f).Always (fun _ t => g t = g s) s fun _ t => g t = g s := by
  have ht := hf t
  rw [h] at ht
  exact always_bind.2 (always_set.2 ht)

theorem ite {c : Prop} [Decidable c] {y : Act α σ β} (hx : x.Keeps g) (hy : y.Keeps g) :
    (if c then x else y).Keeps g := by
  split
  · exact hx
  · exact hy

theorem foldlM {f : γ → β → Act α σ γ} {g : σ → δ} (h : ∀ c b, (f c b).Keeps g) (bs : List β)
    (c : γ) :
    (bs.foldlM f c).Keeps g := by
  induction bs generalizing c with
  | nil => exact pure c
  | cons b bs ih =>
    rw [List.foldlM_cons]
    exact (h c b).bind ih

end Keeps

end Act

end BlockStep
