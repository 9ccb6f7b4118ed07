import BlockStep.Proofs.Agreement
import BlockStep.Proofs.Always

namespace BlockStep

variable {α σ β γ : Type} [Scalar α] {m : Nat}

section Waits

omit [Scalar α]

theorem Collective.finished?_bind {c : Collective α β} (h : c.finished? = none)
    (f : β → Collective α γ) : (c.bind f).finished? = none := by
  cases c with
  | done b => cases h
  | reduce r v next => rfl

theorem Collective.map_eq_done {c : Collective α β} {f : β → γ} {b : γ} :
    c.map f = .done b ↔ ∃ a, c = .done a ∧ f a = b := by
  cases c with
  | done a => simp [map]
  | reduce r v next => simp [map]

namespace Act

/-- The step does not end before it has reduced. -/
def Waits (x : Act α σ β) (s : σ) : Prop := (x s).finished? = none

variable {x : Act α σ β} {s s' : σ} {f : β → Act α σ γ}

theorem waits_reduce (r : Reduction) (v : r.Carrier α) (s : σ) :
    (reduce r v : Act α σ _).Waits s := rfl

theorem Waits.bind (h : x.Waits s) (f : β → Act α σ γ) : (x >>= f).Waits s :=
  Collective.finished?_bind h _

theorem Ends.waits_bind {R : β → σ → Prop} (hx : x.Ends (fun _ => False) s R)
    (h : ∀ b s', R b s' → (f b).Waits s') : (x >>= f).Waits s := by
  rcases hx with ⟨b, s', ⟨es, hd⟩, hb⟩ | ⟨e, s', -, he⟩
  · change ((x s).bind _).finished? = none
    rw [hd, Collective.bind]
    change ((f b s').map _).finished? = none
    rw [Collective.map_eq_bind]
    exact Collective.finished?_bind (h b s' hb) _
  · exact he.elim

end Act

end Waits

namespace Ranks

/-- The outcomes of a step that all ranks take together, if all come to an end. -/
def outcomes? (x : Ranks m (Act α σ β)) (s : Ranks m σ) : Option (Ranks m (Outcome α σ β)) :=
  ((first fun i => x i (s i)).together (others fun i => x i (s i))).bind fun os =>
    if h : os.length = m + 1 then some fun i => os.get (i.cast h.symm) else none

/-- The states after a step with results on all ranks. -/
def states? (x : Ranks m (Act α σ β)) (s : Ranks m σ) : Option (Ranks m σ) :=
  (outcomes? x s).bind fun o =>
    if ∀ i, (o i).result.isOk then some fun i => (o i).state else none

/-- The step comes to an end on all ranks, with these results and states. -/
def Finish (x : Ranks m (Act α σ β)) (s : Ranks m σ) (r : Ranks m (Except Fault β))
    (s' : Ranks m σ) : Prop :=
  ∃ o, outcomes? x s = some o ∧ ∀ i, (o i).result = r i ∧ (o i).state = s' i

/-- The step ends with the same fault on all ranks. -/
def Raises (x : Ranks m (Act α σ β)) (s : Ranks m σ) (e : Fault) : Prop :=
  ∃ o, outcomes? x s = some o ∧ ∀ i, (o i).result = .error e

def Fails (x : Ranks m (Act α σ β)) (s : Ranks m σ) (i : Fin (m + 1)) (e : Fault) : Prop :=
  ∃ o, Collective.settle (fun i => x i (s i)) i = .done o ∧ o.result = .error e

section Outcomes

variable {x : Ranks m (Act α σ β)} {s s' : Ranks m σ}

theorem outcomes?_eq_some {o : Ranks m (Outcome α σ β)} :
    outcomes? x s = some o ↔ Collective.settle (fun i => x i (s i)) = fun i => .done (o i) := by
  rw [outcomes?, Option.bind_eq_some_iff]
  simp only [Collective.together_eq_settle, Collective.mapM_finished?]
  constructor
  · rintro ⟨os, hos, ho⟩
    split at ho
    next hl =>
      cases ho
      funext i
      have hi := congrArg (fun cs : List _ => cs[i.val]?) hos
      simp only [List.getElem?_ofFn, List.getElem?_map, i.isLt, dif_pos] at hi
      rw [List.getElem?_eq_getElem (by omega)] at hi
      exact Option.some.inj hi
    · cases ho
  · intro h
    refine ⟨List.ofFn o, ?_, ?_⟩
    · rw [List.map_ofFn]
      exact congrArg List.ofFn h
    · rw [dif_pos (List.length_ofFn)]
      congr 1
      funext i
      rw [List.get_eq_getElem, List.getElem_ofFn]
      rfl

theorem states?_eq_some : states? x s = some s' ↔
    ∃ o, outcomes? x s = some o ∧ ∀ i, (∃ b, (o i).result = .ok b) ∧ (o i).state = s' i := by
  have hok (r : Except Fault β) : r.isOk ↔ ∃ b, r = .ok b := by
    cases r with
    | error e => simp [Except.isOk, Except.toBool]
    | ok b => simp [Except.isOk, Except.toBool]
  rw [states?, Option.bind_eq_some_iff]
  constructor
  · rintro ⟨o, ho, hs⟩
    split at hs
    next hall =>
      cases hs
      exact ⟨o, ho, fun i => ⟨(hok _).1 (hall i), rfl⟩⟩
    · cases hs
  · rintro ⟨o, ho, hs⟩
    refine ⟨o, ho, ?_⟩
    rw [if_pos fun i => (hok _).2 (hs i).1]
    congr 1
    funext i
    exact (hs i).2

theorem Raises.fails {e : Fault} (h : Raises x s e) (i : Fin (m + 1)) : Fails x s i e := by
  obtain ⟨o, ho, he⟩ := h
  exact ⟨o i, congrFun (outcomes?_eq_some.1 ho) i, he i⟩

theorem Fails.unique {i : Fin (m + 1)} {e e' : Fault} (h : Fails x s i e) (h' : Fails x s i e') :
    e = e' := by
  obtain ⟨o, ho, he⟩ := h
  obtain ⟨o', ho', he'⟩ := h'
  cases ho.symm.trans ho'
  exact Except.error.inj (he.symm.trans he')

theorem Fails.states?_eq_none {i : Fin (m + 1)} {e : Fault} (h : Fails x s i e) :
    states? x s = none := by
  rw [Option.eq_none_iff_forall_ne_some]
  intro s' hs
  obtain ⟨o, ho, he⟩ := h
  obtain ⟨o', ho', hs'⟩ := states?_eq_some.1 hs
  have hi := congrFun (outcomes?_eq_some.1 ho') i
  rw [ho] at hi
  cases hi
  obtain ⟨b, hb⟩ := (hs' i).1
  rw [he] at hb
  cases hb

section Finish

variable {r : Ranks m (Except Fault β)} {b : Ranks m β}

theorem finish_of_does (h : ∀ i, (x i).Does (s i) (r i) (s' i)) : Finish x s r s' := by
  choose es hes using h
  refine ⟨fun i => ⟨r i, s' i, es i⟩, outcomes?_eq_some.2 ?_, fun i => ⟨rfl, rfl⟩⟩
  rw [funext hes]
  exact Collective.settle_done _

theorem finish_reduce {r : Reduction} (v : Ranks m (r.Carrier α)) (s : Ranks m σ) :
    Finish (fun i => Act.reduce r (v i)) s (fun _ => .ok (r.agreed v)) s := by
  refine ⟨fun i => ⟨.ok (r.agreed v), s i, #[]⟩, outcomes?_eq_some.2 ?_, fun i => ⟨rfl, rfl⟩⟩
  exact (Collective.settle_reduce r v _).trans (Collective.settle_done _)

theorem finish_faultCount {v : Ranks m Int} {all : Int} (h : total v = all) (s : Ranks m σ) :
    Finish (fun i => (Act.reduce .faultCount (v i : Int) : Act α σ Int)) s
      (fun _ => .ok all) s := by
  rw [← h]
  exact finish_reduce (r := .faultCount) v s

theorem Finish.unique {r' : Ranks m (Except Fault β)} {t : Ranks m σ} (h : Finish x s r s')
    (h' : Finish x s r' t) : r = r' ∧ s' = t := by
  obtain ⟨o, ho, hr⟩ := h
  obtain ⟨o', ho', hr'⟩ := h'
  cases ho.symm.trans ho'
  exact ⟨funext fun i => (hr i).1.symm.trans (hr' i).1,
    funext fun i => (hr i).2.symm.trans (hr' i).2⟩

theorem Finish.bind {f : Ranks m (β → Act α σ γ)} {r : Ranks m (Except Fault γ)} {t : Ranks m σ}
    (hx : Finish x s (fun i => .ok (b i)) t) (hf : Finish (fun i => f i (b i)) t r s') :
    Finish (fun i => x i >>= f i) s r s' := by
  obtain ⟨o, ho, hob⟩ := hx
  obtain ⟨o', ho', hr⟩ := hf
  refine ⟨fun i => Act.Outcome.after (o i).events (o' i), outcomes?_eq_some.2 ?_, hr⟩
  refine (Collective.settle_bind (outcomes?_eq_some.1 ho) _).trans ?_
  simp only [(hob _).1, (hob _).2, Collective.map_eq_bind]
  exact (Collective.settle_bind (outcomes?_eq_some.1 ho') _).trans (Collective.settle_done _)

theorem Finish.bind_error {e : Fault} (hx : Finish x s (fun _ => .error e) s')
    (f : Ranks m (β → Act α σ γ)) :
    Finish (fun i => x i >>= f i) s (fun _ => .error e) s' := by
  obtain ⟨o, ho, hoe⟩ := hx
  refine ⟨fun i => ⟨.error e, s' i, (o i).events⟩, outcomes?_eq_some.2 ?_, fun i => ⟨rfl, rfl⟩⟩
  refine (Collective.settle_bind (outcomes?_eq_some.1 ho) _).trans ?_
  simp only [(hoe _).1, (hoe _).2]
  exact Collective.settle_done _

theorem Finish.congr {y : Ranks m (Act α σ β)} (h : Finish x s r s')
    (hy : ∀ i, y i (s i) = x i (s i)) :
    Finish y s r s' := by
  obtain ⟨o, ho, hr⟩ := h
  refine ⟨o, outcomes?_eq_some.2 ?_, hr⟩
  rw [funext hy]
  exact outcomes?_eq_some.1 ho

theorem Finish.onFault (h : Finish x s r s') (change : σ → σ) :
    Finish (fun i => (x i).onFault change) s r fun i =>
      if (r i).isOk then s' i else change (s' i) := by
  obtain ⟨o, ho, hr⟩ := h
  refine ⟨fun i => ⟨r i, if (r i).isOk then s' i else change (s' i), (o i).events⟩,
    outcomes?_eq_some.2 ?_, fun i => ⟨rfl, rfl⟩⟩
  simp only [Act.onFault, Collective.map_eq_bind]
  refine (Collective.settle_bind (outcomes?_eq_some.1 ho) _).trans ?_
  refine Eq.trans (congrArg _ (funext fun i => ?_)) (Collective.settle_done _)
  obtain ⟨hi, hs⟩ := hr i
  rw [← hi, ← hs]
  cases (o i).result <;> rfl

theorem Finish.onFault_ok (h : Finish x s (fun i => .ok (b i)) s') (change : σ → σ) :
    Finish (fun i => (x i).onFault change) s (fun i => .ok (b i)) s' := h.onFault change

theorem Finish.onFault_error {e : Fault} (h : Finish x s (fun _ => .error e) s') (change : σ → σ) :
    Finish (fun i => (x i).onFault change) s (fun _ => .error e) fun i => change (s' i) :=
  h.onFault change

/-- What is found of each rank for itself holds where they come to an end together. -/
theorem Finish.of_always {E : Ranks m (Fault → σ → Prop)} {R : Ranks m (β → σ → Prop)}
    (h : Finish x s (fun i => .ok (b i)) s') (hx : ∀ i, (x i).Always (E i) (s i) (R i))
    (i : Fin (m + 1)) : R i (b i) (s' i) := by
  obtain ⟨o, ho, hob⟩ := h
  have hi := Collective.All.of_settle hx (congrFun (outcomes?_eq_some.1 ho) i)
  rwa [Act.Outcome.Is, (hob i).1, (hob i).2] at hi

theorem Finish.of_always_error {E : Ranks m (Fault → σ → Prop)} {R : Ranks m (β → σ → Prop)}
    {e : Fault}
    (h : Finish x s (fun _ => .error e) s') (hx : ∀ i, (x i).Always (E i) (s i) (R i))
    (i : Fin (m + 1)) : E i e (s' i) := by
  obtain ⟨o, ho, hob⟩ := h
  have hi := Collective.All.of_settle hx (congrFun (outcomes?_eq_some.1 ho) i)
  rwa [Act.Outcome.Is, (hob i).1, (hob i).2] at hi

theorem exists_finish_of_states? (h : states? x s = some s') :
    ∃ b : Ranks m β, Finish x s (fun i => .ok (b i)) s' := by
  obtain ⟨o, ho, hs⟩ := states?_eq_some.1 h
  choose b hb using fun i => (hs i).1
  exact ⟨b, o, ho, fun i => ⟨hb i, (hs i).2⟩⟩

theorem Finish.eq_of_does {r : Ranks m (Except Fault β)} (h : Finish x s r s') {i : Fin (m + 1)}
    {r' : Except Fault β} {t : σ} (hd : (x i).Does (s i) r' t) : r i = r' ∧ s' i = t := by
  obtain ⟨o, ho, hr⟩ := h
  obtain ⟨es, hes⟩ := hd
  have hrest := congrFun (outcomes?_eq_some.1 ho) i
  rw [Collective.settle_of_done hes, hes] at hrest
  obtain ⟨hres, hstate⟩ := hr i
  rw [← Collective.done.inj hrest] at hres hstate
  exact ⟨hres.symm, hstate.symm⟩

theorem Finish.not_fails {b : Ranks m β} (h : Finish x s (fun i => .ok (b i)) s') {i : Fin (m + 1)}
    {e : Fault} : ¬ Fails x s i e := by
  rintro ⟨o, ho, he⟩
  obtain ⟨o', ho', hr⟩ := h
  rw [congrFun (outcomes?_eq_some.1 ho') i] at ho
  rw [← Collective.done.inj ho, (hr i).1] at he
  cases he

end Finish

end Outcomes

section Strands

/-- Rank `i` fails, and rank `j` is left waiting in a reduction. -/
def Strands (x : Ranks m (Act α σ β)) (s : Ranks m σ) (i j : Fin (m + 1)) (e : Fault) : Prop :=
  Fails x s i e ∧ (Collective.settle (fun i => x i (s i)) j).finished? = none

variable {x y : Ranks m (Act α σ β)} {s t : Ranks m σ} {i j : Fin (m + 1)} {e : Fault}

theorem strands_of_does {t : σ} (hi : (x i).Does (s i) (.error e) t) (hj : (x j).Waits (s j)) :
    Strands x s i j e := by
  obtain ⟨es, hi⟩ := hi
  have hsettle : Collective.settle (fun i => x i (s i)) = fun i => x i (s i) :=
    Collective.settle_of_done hi
  refine ⟨⟨_, (congrFun hsettle i).trans hi, rfl⟩, ?_⟩
  rw [hsettle]
  exact hj

theorem Strands.outcomes?_eq_none (h : Strands x s i j e) : outcomes? x s = none := by
  rw [Option.eq_none_iff_forall_ne_some]
  intro o ho
  have hj := h.2
  rw [outcomes?_eq_some.1 ho] at hj
  cases hj

theorem Strands.congr (h : Strands x s i j e) (hy : ∀ i, y i (s i) = x i (s i)) :
    Strands y s i j e := by
  rw [Strands, Fails, funext hy]
  exact h

section Fails

variable {b : Ranks m β}

theorem Finish.settle_bind (hx : Finish x s (fun i => .ok (b i)) t) (f : Ranks m (β → Act α σ γ)) :
    ∃ es : Ranks m (Array (Event α)), (Collective.settle fun i => (x i >>= f i) (s i)) =
      Collective.settle fun i => (f i (b i) (t i)).map (Act.Outcome.after (es i)) := by
  obtain ⟨o, ho, hob⟩ := hx
  refine ⟨fun i => (o i).events, (Collective.settle_bind (outcomes?_eq_some.1 ho) _).trans ?_⟩
  simp only [(hob _).1, (hob _).2]

/-- A rank that fails does nothing of what would come next. -/
theorem Fails.bind (h : Fails x s i e) (f : Ranks m (β → Act α σ γ)) :
    Fails (fun i => x i >>= f i) s i e := by
  obtain ⟨⟨r, u, es⟩, ho, rfl⟩ := h
  refine ⟨⟨.error e, u, es⟩, ?_, rfl⟩
  refine (congrFun (Collective.settle_bind_of_done ho _ rfl) i).trans ?_
  rw [ho]
  rfl

theorem Fails.onFault (h : Fails x s i e) (change : σ → σ) :
    Fails (fun i => (x i).onFault change) s i e := by
  obtain ⟨⟨r, u, es⟩, ho, rfl⟩ := h
  simp only [Fails, Act.onFault, Collective.map_eq_bind]
  refine ⟨⟨.error e, change u, es⟩, ?_, rfl⟩
  refine (congrFun (Collective.settle_bind_of_done ho _ rfl) i).trans ?_
  rw [ho]
  rfl

theorem Finish.fails {f : Ranks m (β → Act α σ γ)} (hx : Finish x s (fun i => .ok (b i)) t)
    (hf : Fails (fun i => f i (b i)) t i e) : Fails (fun i => x i >>= f i) s i e := by
  obtain ⟨es, hsettle⟩ := hx.settle_bind f
  obtain ⟨⟨r, u, es'⟩, hi, rfl⟩ := hf
  simp only [Collective.map_eq_bind] at hsettle
  rw [Fails, hsettle, Collective.settle_bind_of_done hi _ rfl]
  refine ⟨⟨.error e, u, es i ++ es'⟩, ?_, rfl⟩
  dsimp only
  rw [hi]
  rfl

end Fails

/-- What ranks would do next is not done by any. -/
theorem Strands.bind (h : Strands x s i j e) (f : Ranks m (β → Act α σ γ)) :
    Strands (fun i => x i >>= f i) s i j e := by
  refine ⟨h.1.bind f, ?_⟩
  obtain ⟨⟨⟨r, u, es⟩, ho, rfl⟩, hj⟩ := h
  refine (congrArg _ (congrFun (Collective.settle_bind_of_done ho _ rfl) j)).trans ?_
  exact Collective.finished?_bind hj _

theorem Strands.onFault {change : σ → σ} (h : Strands x s i j e) :
    Strands (fun i => (x i).onFault change) s i j e := by
  refine ⟨h.1.onFault change, ?_⟩
  obtain ⟨⟨⟨r, u, es⟩, ho, rfl⟩, hj⟩ := h
  simp only [Act.onFault, Collective.map_eq_bind]
  refine (congrArg _ (congrFun (Collective.settle_bind_of_done ho _ rfl) j)).trans ?_
  exact Collective.finished?_bind hj _

theorem Finish.strands {b : Ranks m β} {f : Ranks m (β → Act α σ γ)}
    (hx : Finish x s (fun i => .ok (b i)) t) (hf : Strands (fun i => f i (b i)) t i j e) :
    Strands (fun i => x i >>= f i) s i j e := by
  refine ⟨hx.fails hf.1, ?_⟩
  obtain ⟨es, hsettle⟩ := hx.settle_bind f
  obtain ⟨⟨⟨r, u, es'⟩, hi, rfl⟩, hj⟩ := hf
  simp only [Collective.map_eq_bind] at hsettle
  rw [hsettle, Collective.settle_bind_of_done hi _ rfl]
  exact Collective.finished?_bind hj _

end Strands

section Settles

/-- Rank `i` comes to its end with this result and state, whether other ranks do or not. -/
def Settles (x : Ranks m (Act α σ β)) (s : Ranks m σ) (i : Fin (m + 1)) (r : Except Fault β)
    (t : σ) : Prop :=
  ∃ o, Collective.settle (fun i => x i (s i)) i = .done o ∧ o.result = r ∧ o.state = t

variable {x : Ranks m (Act α σ β)} {f : Ranks m (β → Act α σ γ)} {s s' : Ranks m σ} {b : Ranks m β}
  {i : Fin (m + 1)} {t : σ}

theorem Finish.settles {r : Ranks m (Except Fault β)} (h : Finish x s r s') (i : Fin (m + 1)) :
    Settles x s i (r i) (s' i) := by
  obtain ⟨o, ho, hr⟩ := h
  exact ⟨o i, congrFun (outcomes?_eq_some.1 ho) i, hr i⟩

section Always

variable {E : Ranks m (Fault → σ → Prop)} {R : Ranks m (β → σ → Prop)}
  (hx : ∀ i, (x i).Always (E i) (s i) (R i))

include hx

theorem Settles.of_always {b : β} (h : Settles x s i (.ok b) t) : R i b t := by
  obtain ⟨o, ho, hb, rfl⟩ := h
  have hi := Collective.All.of_settle hx ho
  rwa [Act.Outcome.Is, hb] at hi

theorem Settles.of_always_error {e : Fault} (h : Settles x s i (.error e) t) : E i e t := by
  obtain ⟨o, ho, he, rfl⟩ := h
  have hi := Collective.All.of_settle hx ho
  rwa [Act.Outcome.Is, he] at hi

end Always

/-- A rank comes to one of the ends that it finds for itself. -/
theorem Settles.spec {r : Except Fault β} {E : Ranks m (Fault → σ → Prop)}
    {R : Ranks m (β → σ → Prop)} (h : Settles x s i r t)
    (hx : ∀ i, (x i).Always (E i) (s i) (R i)) :
    (∀ b, r = .ok b → R i b t) ∧ ∀ e, r = .error e → E i e t := by
  constructor
  · rintro b rfl
    exact h.of_always hx
  · rintro e rfl
    exact h.of_always_error hx

theorem Settles.congr {y : Ranks m (Act α σ β)} {r : Except Fault β} (h : Settles x s i r t)
    (hy : ∀ i, x i (s i) = y i (s i)) : Settles y s i r t := by
  obtain ⟨o, ho, hr⟩ := h
  rw [funext hy] at ho
  exact ⟨o, ho, hr⟩

/-- After a step that ranks have ended together they come to rest as if they began with the next
one. -/
theorem Finish.settles_bind_iff {r : Except Fault γ} (hx : Finish x s (fun i => .ok (b i)) s') :
    Settles (fun i => x i >>= f i) s i r t ↔ Settles (fun i => f i (b i)) s' i r t := by
  obtain ⟨es, hsettle⟩ := hx.settle_bind f
  rw [Settles, hsettle, Collective.settle_map]
  constructor
  · rintro ⟨o, ho, rfl, rfl⟩
    obtain ⟨o', hc, rfl⟩ := Collective.map_eq_done.1 ho
    exact ⟨o', hc, rfl, rfl⟩
  · rintro ⟨o, ho, hr⟩
    exact ⟨_, congrArg (Collective.map _) ho, hr⟩

theorem Finish.of_bind {r : Ranks m (Except Fault γ)} {t : Ranks m σ}
    (hx : Finish x s (fun i => .ok (b i)) s') (h : Finish (fun i => x i >>= f i) s r t) :
    Finish (fun i => f i (b i)) s' r t := by
  choose o ho hr using fun i => hx.settles_bind_iff.1 (h.settles i)
  exact ⟨o, outcomes?_eq_some.2 (funext ho), hr⟩

end Settles

end Ranks

namespace Joint

variable {A E : Fault → Prop} {x : Ranks m (Act α σ β)} {s : Ranks m σ}
  {Q : Ranks m β → Ranks m σ → Prop}

/-- Ranks come to their results, or fail alike, or one fails on its own. -/
theorem cases (h : Joint A E x s Q) :
    (∃ b s', Ranks.states? x s = some s' ∧ Q b s') ∨ (∃ e, Ranks.Raises x s e ∧ A e) ∨
      ∃ i e, Ranks.Fails x s i e ∧ E e := by
  rcases h.settle with ⟨o, ho, ⟨b, s', hb, hQ⟩ | ⟨e, he, hA⟩⟩ | ⟨i, o, ho, e, he, hE⟩
  · exact .inl ⟨b, s', Ranks.states?_eq_some.2 ⟨o, Ranks.outcomes?_eq_some.2 ho,
      fun i => ⟨⟨b i, (hb i).1⟩, (hb i).2⟩⟩, hQ⟩
  · exact .inr (.inl ⟨e, ⟨o, Ranks.outcomes?_eq_some.2 ho, he⟩, hA⟩)
  · exact .inr (.inr ⟨i, e, ⟨o, ho, he⟩, hE⟩)

theorem of_states? (h : Joint A E x s Q) {s' : Ranks m σ} (hs : Ranks.states? x s = some s') :
    ∃ b, Q b s' := by
  rcases h.cases with ⟨b, t, ht, hQ⟩ | ⟨e, he, -⟩ | ⟨i, e, he, -⟩
  · cases hs.symm.trans ht
    exact ⟨b, hQ⟩
  · cases hs.symm.trans (he.fails 0).states?_eq_none
  · cases hs.symm.trans he.states?_eq_none

theorem of_raises (h : Joint A E x s Q) {e : Fault} (he : Ranks.Raises x s e) : A e ∨ E e := by
  rcases h.cases with ⟨b, t, ht, -⟩ | ⟨e', he', hA⟩ | ⟨i, e', he', hE⟩
  · cases ht.symm.trans (he.fails 0).states?_eq_none
  · rw [(he.fails 0).unique (he'.fails 0)]
    exact .inl hA
  · rw [(he.fails i).unique he']
    exact .inr hE

/-- Ranks of which none fails on its own come to the end together, in states that each can reach. -/
theorem finish {E' : Ranks m (Fault → σ → Prop)} {R : Ranks m (β → σ → Prop)}
    (h : Joint A (fun _ => False) x s Q) (hx : ∀ i, (x i).Always (E' i) (s i) (R i)) :
    (∃ b s', Ranks.Finish x s (fun i => .ok (b i)) s' ∧ Q b s') ∨
      ∃ e s', Ranks.Finish x s (fun _ => .error e) s' ∧ A e ∧ ∀ i, E' i e (s' i) := by
  rcases h.settle with ⟨o, ho, ⟨b, s', hb, hQ⟩ | ⟨e, he, hA⟩⟩ | ⟨i, o, -, e, -, hE⟩
  · exact .inl ⟨b, s', ⟨o, Ranks.outcomes?_eq_some.2 ho, hb⟩, hQ⟩
  · have hfin : Ranks.Finish x s (fun _ => .error e) fun i => (o i).state :=
      ⟨o, Ranks.outcomes?_eq_some.2 ho, fun i => ⟨he i, rfl⟩⟩
    exact .inr ⟨e, _, hfin, hA, hfin.of_always_error hx⟩
  · exact hE.elim

theorem finish_or_fails (h : Joint A E x s Q) :
    (∃ b s', Ranks.Finish x s (fun i => .ok (b i)) s' ∧ Q b s') ∨ ∃ i e, Ranks.Fails x s i e := by
  rcases h.settle with ⟨o, ho, ⟨b, s', hb, hQ⟩ | ⟨e, he, -⟩⟩ | ⟨i, o, ho, e, he, -⟩
  · exact .inl ⟨b, s', ⟨o, Ranks.outcomes?_eq_some.2 ho, hb⟩, hQ⟩
  · exact .inr ⟨0, e, o 0, congrFun ho 0, he 0⟩
  · exact .inr ⟨i, e, o, ho, he⟩

theorem of_finish (h : Joint A E x s Q) {b : Ranks m β} {s' : Ranks m σ}
    (hx : Ranks.Finish x s (fun i => .ok (b i)) s') : Q b s' := by
  rcases h.finish_or_fails with ⟨c, t, ht, hQ⟩ | ⟨i, e, hfails⟩
  · obtain ⟨hb, rfl⟩ := hx.unique ht
    obtain rfl : b = c := funext fun i => Except.ok.inj (congrFun hb i)
    exact hQ
  · exact absurd hfails hx.not_fails

theorem of_finish_bind {f : Ranks m (β → Act α σ γ)} {s' : Ranks m σ} {c : Ranks m γ}
    (h : Joint A E x s Q)
    (hb : Ranks.Finish (fun i => x i >>= f i) s (fun i => .ok (c i)) s') :
    ∃ b t, Ranks.Finish x s (fun i => .ok (b i)) t ∧ Q b t ∧
      Ranks.Finish (fun i => f i (b i)) t (fun i => .ok (c i)) s' := by
  rcases h.finish_or_fails with ⟨b, t, hx, hQ⟩ | ⟨i, e, hfails⟩
  · exact ⟨b, t, hx, hQ, hx.of_bind hb⟩
  · exact absurd (hfails.bind f) hb.not_fails

end Joint

end BlockStep
