import BlockStep.Collective
import Mathlib.Data.Fin.Tuple.Basic

namespace BlockStep

variable {α β γ : Type} [Scalar α] {m : Nat}

/-- One value for each of `m + 1` ranks. -/
abbrev Ranks (m : Nat) (β : Type) := Fin (m + 1) → β

def Ranks.first (v : Ranks m β) : β := v 0

/-- The values of the ranks beside the first. -/
def Ranks.others (v : Ranks m β) : List β := List.ofFn fun i : Fin m => v i.succ

/-- The joint value of what the ranks hand in. -/
def Reduction.agreed (r : Reduction) (v : Ranks m (r.Carrier α)) : r.Carrier α :=
  r.total (Ranks.first v) (Ranks.others v)

namespace Collective

/-- Where a first rank and others come to rest. -/
def settleFrom : Collective α β → (Fin m → Collective α β) → Ranks m (Collective α β)
  | done b, others => Fin.cons (done b) others
  | reduce r v next, others =>
    if h : ∀ i, ((others i).waiting? r).isSome then
      let w := r.total v (List.ofFn fun i => (((others i).waiting? r).get (h i)).1)
      settleFrom (next w) fun i => (((others i).waiting? r).get (h i)).2 w
    else Fin.cons (reduce r v next) others

/-- Where ranks come to rest. -/
def settle (cs : Ranks m (Collective α β)) : Ranks m (Collective α β) :=
  settleFrom (cs 0) fun i => cs i.succ

omit [Scalar α] in
@[simp] theorem waiting?_reduce (r : Reduction) (v : r.Carrier α)
    (next : r.Carrier α → Collective α β) : (reduce r v next).waiting? r = some (v, next) := by
  simp [waiting?]

omit [Scalar α] in
theorem eq_reduce_of_waiting? {c : Collective α β} {r : Reduction}
    {e : r.Carrier α × (r.Carrier α → Collective α β)} (h : c.waiting? r = some e) :
    c = reduce r e.1 e.2 := by
  cases c with
  | done b => cases h
  | reduce r' v next =>
    rw [waiting?] at h
    split at h
    next hr =>
      subst hr
      cases h
      rfl
    · cases h

theorem settle_done (b : Ranks m β) :
    settle (fun i => (done (b i) : Collective α β)) = fun i => done (b i) := by
  funext i
  cases i using Fin.cases with
  | zero => rfl
  | succ i => rfl

theorem settle_reduce (r : Reduction) (v : Ranks m (r.Carrier α))
    (next : Ranks m (r.Carrier α → Collective α β)) :
    settle (fun i => reduce r (v i) (next i)) = settle fun i => next i (r.agreed v) := by
  have h : ∀ i : Fin m, ((reduce r (v i.succ) (next i.succ)).waiting? r).isSome := by simp
  rw [settle, settleFrom, dif_pos h]
  simp only [waiting?_reduce, Option.get_some]
  rfl

/-- Where one rank has ended, all ranks rest. -/
theorem settle_of_done {cs : Ranks m (Collective α β)} {i : Fin (m + 1)} {b : β}
    (h : cs i = done b) : settle cs = cs := by
  have hcons (c : Collective α β) (hc : cs 0 = c) :
      (Fin.cons c fun j => cs j.succ : Ranks m (Collective α β)) = cs := by
    rw [← hc]
    exact Fin.cons_self_tail cs
  rw [settle]
  cases hc : cs 0 with
  | done b' =>
    rw [settleFrom]
    exact hcons _ hc
  | reduce r v next =>
    cases i using Fin.cases with
    | zero => rw [hc] at h; cases h
    | succ i =>
      have hw : ¬ ∀ j : Fin m, ((cs j.succ).waiting? r).isSome := by
        intro hj
        have := hj i
        rw [h] at this
        cases this
      rw [settleFrom, dif_neg hw]
      exact hcons _ hc

omit [Scalar α] in
theorem exists_eq_reduce {cs : Ranks m (Collective α β)} {r : Reduction} {v : r.Carrier α}
    {next : r.Carrier α → Collective α β} (h : cs 0 = reduce r v next)
    (hw : ∀ i : Fin m, ((cs i.succ).waiting? r).isSome) :
    ∃ (vs : Ranks m (r.Carrier α)) (nexts : Ranks m (r.Carrier α → Collective α β)),
      cs = fun i => reduce r (vs i) (nexts i) := by
  have hreduce (i : Fin (m + 1)) : ∃ v next, cs i = reduce r v next := by
    cases i using Fin.cases with
    | zero => exact ⟨v, next, h⟩
    | succ i =>
      obtain ⟨e, he⟩ := Option.isSome_iff_exists.1 (hw i)
      exact ⟨e.1, e.2, eq_reduce_of_waiting? he⟩
  choose vs nexts hcs using hreduce
  exact ⟨vs, nexts, funext hcs⟩

theorem settle_of_parted {cs : Ranks m (Collective α β)} {r : Reduction} {v : r.Carrier α}
    {next : r.Carrier α → Collective α β} (h : cs 0 = reduce r v next)
    (hw : ¬ ∀ i : Fin m, ((cs i.succ).waiting? r).isSome) : settle cs = cs := by
  rw [settle, h, settleFrom, dif_neg hw, ← h]
  exact Fin.cons_self_tail cs

theorem settle_induction {P : Ranks m (Collective α β) → Prop}
    (rest : ∀ cs, settle cs = cs → P cs)
    (met : ∀ r (v : Ranks m (r.Carrier α)) (next : Ranks m (r.Carrier α → Collective α β)),
      P (fun i => next i (r.agreed v)) → P fun i => reduce r (v i) (next i))
    (cs : Ranks m (Collective α β)) : P cs := by
  generalize hc : cs 0 = c
  induction c generalizing cs with
  | done b => exact rest cs (settle_of_done hc)
  | reduce r v next ih =>
    by_cases hw : ∀ i : Fin m, ((cs i.succ).waiting? r).isSome
    · obtain ⟨vs, nexts, rfl⟩ := exists_eq_reduce hc hw
      cases hc
      exact met r vs nexts (ih _ _ rfl)
    · exact rest cs (settle_of_parted hc hw)

theorem ofFn_cons (b : β) (f : Fin m → β) :
    List.ofFn (Fin.cons b f : Ranks m β) = b :: List.ofFn f := by
  simp [List.ofFn_succ]

theorem mapM_ofFn_of_isSome {f : γ → Option β} {g : Fin m → γ} (h : ∀ i, (f (g i)).isSome) :
    (List.ofFn g).mapM f = some (List.ofFn fun i => (f (g i)).get (h i)) := by
  induction m with
  | zero => simp
  | succ m ih =>
    have rest := ih (g := fun i => g i.succ) fun i => h i.succ
    obtain ⟨b, hb⟩ := Option.isSome_iff_exists.1 (h 0)
    simp [List.ofFn_succ, hb, rest]

theorem mapM_eq_none_of_mem {f : γ → Option β} {c : γ} {cs : List γ} (h : c ∈ cs)
    (hc : f c = none) : cs.mapM f = none := by
  induction cs with
  | nil => cases h
  | cons d ds ih =>
    rw [List.mapM_cons]
    rcases List.mem_cons.1 h with rfl | h
    · rw [hc]
      rfl
    · rw [ih h]
      cases f d <;> rfl

theorem mapM_ofFn_eq_none {f : γ → Option β} {g : Fin m → γ} (h : ¬ ∀ i, (f (g i)).isSome) :
    (List.ofFn g).mapM f = none := by
  obtain ⟨i, hi⟩ := not_forall.1 h
  exact mapM_eq_none_of_mem (List.mem_ofFn.2 ⟨i, rfl⟩) (by simpa using hi)

theorem together_eq_settleFrom (first : Collective α β) (others : Fin m → Collective α β) :
    first.together (List.ofFn others) = (List.ofFn (settleFrom first others)).mapM finished? := by
  induction first generalizing others with
  | done b =>
    rw [together, settleFrom, ofFn_cons, List.mapM_cons]
    cases (List.ofFn others).mapM finished? <;> rfl
  | reduce r v next ih =>
    by_cases h : ∀ i, ((others i).waiting? r).isSome
    · rw [settleFrom, dif_pos h, ← ih]
      simp only [together, mapM_ofFn_of_isSome h, List.map_ofFn]
      rfl
    · rw [settleFrom, dif_neg h, ofFn_cons, List.mapM_cons]
      simp only [together, mapM_ofFn_eq_none h]
      rfl

theorem together_eq_settle (cs : Ranks m (Collective α β)) :
    (Ranks.first cs).together (Ranks.others cs) = (List.ofFn (settle cs)).mapM finished? :=
  together_eq_settleFrom (cs 0) fun i => cs i.succ

omit [Scalar α] in
theorem mapM_finished? {cs : List (Collective α β)} {bs : List β} :
    cs.mapM finished? = some bs ↔ cs = bs.map done := by
  induction cs generalizing bs with
  | nil => cases bs <;> simp
  | cons c cs ih =>
    rw [List.mapM_cons]
    cases c with
    | reduce r v next => cases bs <;> simp [finished?]
    | done b =>
      cases hcs : cs.mapM finished? with
      | none =>
        have hno (ds : List β) : cs ≠ ds.map done := fun h => by cases hcs.symm.trans (ih.2 h)
        cases bs with
        | nil => simp [finished?]
        | cons d ds => simp [finished?, hno ds]
      | some ds =>
        have hds := ih.1 hcs
        cases bs with
        | nil => simp [finished?]
        | cons d' ds' =>
          have hinj : ds = ds' ↔ cs = ds'.map done := by
            rw [← ih, hcs, Option.some.injEq]
          simp [finished?, hinj]

/-- Ranks that meet in every reduction until all have ended with results for which `Q`, or until
some rank ends on its own with a result that is `astray`. -/
inductive Meets (Q : Ranks m β → Prop) (astray : β → Prop) : Ranks m (Collective α β) → Prop
  | ended {b : Ranks m β} (h : Q b) : Meets Q astray fun i => done (b i)
  | strayed {cs : Ranks m (Collective α β)} (i : Fin (m + 1)) {b : β} (h : cs i = done b)
      (hb : astray b) : Meets Q astray cs
  | met {r : Reduction} {v : Ranks m (r.Carrier α)} {next : Ranks m (r.Carrier α → Collective α β)}
      (h : Meets Q astray fun i => next i (r.agreed v)) :
        Meets Q astray fun i => reduce r (v i) (next i)

namespace Meets

variable {Q Q' : Ranks m β → Prop} {astray astray' : β → Prop} {cs : Ranks m (Collective α β)}

theorem settle (h : Meets Q astray cs) :
    (∃ b, Collective.settle cs = (fun i => done (b i)) ∧ Q b) ∨
      ∃ i b, Collective.settle cs i = done b ∧ astray b := by
  induction h with
  | ended h => exact .inl ⟨_, settle_done _, h⟩
  | strayed i h hb => exact .inr ⟨i, _, (congrFun (settle_of_done h) i).trans h, hb⟩
  | met h ih => rwa [settle_reduce]

theorem mono (h : Meets Q astray cs) (hQ : ∀ b, Q b → Q' b) (ha : ∀ b, astray b → astray' b) :
    Meets Q' astray' cs := by
  induction h with
  | ended h => exact .ended (hQ _ h)
  | strayed i h hb => exact .strayed i h (ha _ hb)
  | met h ih => exact .met ih

theorem mono_or (h : Meets Q astray cs) (hQ : ∀ b, Q b → Q' b ∨ ∃ i, astray (b i)) :
    Meets Q' astray cs := by
  induction h with
  | ended h =>
    cases hQ _ h with
    | inl h => exact .ended h
    | inr h =>
      obtain ⟨i, hi⟩ := h
      exact .strayed i rfl hi
  | strayed i h hb => exact .strayed i h hb
  | met h ih => exact .met ih

theorem bind {P : Ranks m γ → Prop} {lost : γ → Prop} {f : Ranks m (β → Collective α γ)}
    (h : Meets Q astray cs) (hf : ∀ b, Q b → Meets P lost fun i => f i (b i))
    (ha : ∀ i b, astray b → ∃ c, f i b = done c ∧ lost c) :
    Meets P lost fun i => (cs i).bind (f i) := by
  induction h with
  | ended h => exact hf _ h
  | @strayed cs i b h hb =>
    obtain ⟨c, hc, hl⟩ := ha i b hb
    refine .strayed i (b := c) ?_ hl
    rw [h]
    exact hc
  | met h ih => exact .met ih

theorem map {P : Ranks m γ → Prop} {lost : γ → Prop} {g : Ranks m (β → γ)} (h : Meets Q astray cs)
    (hg : ∀ b, Q b → P fun i => g i (b i)) (ha : ∀ i b, astray b → lost (g i b)) :
    Meets P lost fun i => (cs i).map (g i) := by
  simp only [map_eq_bind]
  exact h.bind (fun b hb => .ended (hg b hb)) fun i b hb => ⟨_, rfl, ha i b hb⟩

end Meets

omit [Scalar α] in
theorem isSome_waiting?_map (r : Reduction) (c : Collective α β) (g : β → γ) :
    ((c.map g).waiting? r).isSome = (c.waiting? r).isSome := by
  cases c with
  | done b => rfl
  | reduce r' v next =>
    simp only [map, waiting?]
    by_cases h : r' = r
    · simp only [dif_pos h, Option.isSome_some]
    · simp only [dif_neg h, Option.isSome_none]

/-- What ranks make of their results does not change where they come to rest. -/
theorem settle_map (cs : Ranks m (Collective α β)) (g : Ranks m (β → γ)) :
    settle (fun i => (cs i).map (g i)) = fun i => (settle cs i).map (g i) := by
  generalize hc : cs 0 = c
  induction c generalizing cs with
  | done b =>
    rw [settle_of_done hc]
    apply settle_of_done (i := 0) (b := g 0 b)
    rw [hc]
    rfl
  | reduce r v next ih =>
    by_cases hw : ∀ i : Fin m, ((cs i.succ).waiting? r).isSome
    · obtain ⟨vs, nexts, rfl⟩ := exists_eq_reduce hc hw
      cases hc
      rw [settle_reduce]
      exact (settle_reduce r vs fun i w => (nexts i w).map (g i)).trans (ih _ _ rfl)
    · rw [settle_of_parted hc hw]
      have hmap : ((cs 0).map (g 0)) = reduce r v fun w => (next w).map (g 0) := by
        rw [hc]
        rfl
      apply settle_of_parted hmap
      simpa only [isSome_waiting?_map] using hw

theorem settle_bind {cs : Ranks m (Collective α β)} {b : Ranks m β}
    (h : settle cs = fun i => done (b i)) (f : Ranks m (β → Collective α γ)) :
    settle (fun i => (cs i).bind (f i)) = settle fun i => f i (b i) := by
  induction cs using settle_induction with
  | rest cs hrest =>
    rw [← hrest, h]
    rfl
  | met r v next ih =>
    rw [settle_reduce] at h
    exact (settle_reduce r v fun i w => (next i w).bind (f i)).trans (ih h)

theorem settle_bind_of_done {cs : Ranks m (Collective α β)} {i : Fin (m + 1)} {b : β} {c : γ}
    (h : settle cs i = done b) (f : Ranks m (β → Collective α γ)) (hf : f i b = done c) :
    settle (fun i => (cs i).bind (f i)) = fun i => (settle cs i).bind (f i) := by
  induction cs using settle_induction with
  | rest cs hrest =>
    rw [hrest] at h ⊢
    refine settle_of_done (i := i) (b := c) ?_
    rw [h]
    exact hf
  | met r v next ih =>
    rw [settle_reduce] at h ⊢
    exact (settle_reduce r v fun i w => (next i w).bind (f i)).trans (ih h)

/-- With these reductions, answered like this, the program ends with a result. -/
inductive Issues : Collective α β → List (Call α) → β → Prop
  | done (b : β) : Issues (.done b) [] b
  | reduce {r : Reduction} {v w : r.Carrier α} {next : r.Carrier α → Collective α β}
      {ws : List (Call α)} {b : β} (h : Issues (next w) ws b) :
        Issues (.reduce r v next) (⟨r, w⟩ :: ws) b

theorem exists_issues {cs : Ranks m (Collective α β)} {b : Ranks m β}
    (h : settle cs = fun i => done (b i)) : ∃ ws, ∀ i, Issues (cs i) ws (b i) := by
  induction cs using settle_induction with
  | rest cs hrest =>
    rw [← hrest, h]
    exact ⟨[], fun i => .done (b i)⟩
  | met r v next ih =>
    rw [settle_reduce] at h
    obtain ⟨ws, hws⟩ := ih h
    exact ⟨⟨r, r.agreed v⟩ :: ws, fun i => .reduce (hws i)⟩

end Collective

end BlockStep
