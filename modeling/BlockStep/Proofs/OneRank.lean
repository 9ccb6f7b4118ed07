import BlockStep.Proofs.Always
import BlockStep.Proofs.Round

namespace BlockStep

variable {α : Type} [Scalar α] {m n : Nat}

/-- The schedule of a particle and the tick of its last kick. -/
def Particle.mark (p : Particle α) : Slot × Int := (p.slot, p.kickTick)

def Store.marks (s : Store α) : Array (Slot × Int) := s.map Particle.mark

namespace Store

variable {s s' : Store α}

omit [Scalar α] in
theorem slots_of_marks (h : s'.marks = s.marks) : s'.slots = s.slots := by
  have hfst (s : Store α) : s.slots = s.marks.map Prod.fst := by
    rw [slots, marks, Array.map_map]
    rfl
  rw [hfst, hfst, h]

omit [Scalar α] in
theorem forall_mark (h : s'.marks = s.marks) {P : Slot × Int → Prop} (hP : ∀ p ∈ s, P p.mark) :
    ∀ p ∈ s', P p.mark := by
  intro p hp
  have hmem : p.mark ∈ s'.marks := Array.mem_map_of_mem hp
  rw [h] at hmem
  obtain ⟨q, hq, hmark⟩ := Array.mem_map.1 hmem
  rw [← hmark]
  exact hP q hq

omit [Scalar α] in
theorem marks_map (f : Particle α → Particle α) (h : ∀ p, (f p).mark = p.mark) (s : Store α) :
    marks (s.map f) = s.marks := by
  rw [marks, marks, Array.map_map]
  congr 1
  funext p
  exact h p

end Store

theorem Glass.keeps_make (c : CosmologyConfig α) : (make c).Keeps Store.marks := by
  have hreversed (s : Store α) : Store.marks (s.map reversed) = s.marks :=
    Store.marks_map reversed (fun _ => rfl) s
  have hmoved (x y : α) (s : Store α) : Store.marks (s.map (moved x y)) = s.marks :=
    Store.marks_map (moved x y) (fun _ => rfl) s
  rw [make]
  refine .bind (.modify hreversed) fun _ => .bind (.lift _) fun toLength => .bind .get fun s => ?_
  refine .bind (.reduce _ _) fun all => .bind .get fun s => .bind (.lift _) fun critical => ?_
  refine .bind (.lift _) fun ratio => ?_
  split
  · exact .bind (.tell _) fun _ => .bind (.modify (hmoved _ _)) fun _ => .pure _
  · split
    · exact .fail_bind _ _
    · exact .bind (.modify (hmoved _ _)) fun _ => .pure _

theorem Glass.always_make (c : CosmologyConfig α) (s : Store α) :
    (make c).Always (fun e _ => e.isNumeric) s fun _ _ => True := by
  rw [make]
  refine Act.always_bind.2 (Act.always_modify.2 (Act.always_bind.2 ?_))
  refine Act.always_lift (fun toLength _ => ?_) fun e he => Scalar.isNumeric_quotient he
  refine Act.always_bind.2 (Act.always_get.2
    (Act.always_bind.2 (Act.always_reduce.2 fun all _ => ?_)))
  refine Act.always_bind.2 (Act.always_get.2 (Act.always_bind.2 ?_))
  refine Act.always_lift (fun critical _ => ?_) fun e he =>
    CosmologyConfig.isNumeric_criticalDensity he
  refine Act.always_bind.2 (Act.always_lift (fun ratio _ => ?_) fun e he =>
    Scalar.isNumeric_quotient he)
  cases hp : Scalar.power ratio (1.0 / 3.0) with
  | ok spacing => simp only [Act.always_bind, Act.always_tell, Act.always_modify, Act.always_pure]
  | error e =>
    dsimp only
    split
    · exact Act.always_bind.2 (Act.always_fail.2 (Scalar.isNumeric_power hp))
    · simp only [Act.always_bind, Act.always_modify, Act.always_pure]

section Keeps

variable {σ γ : Type} {g : σ → γ}

theorem MeshStep.keeps_next (c : Config α) (t : Timeline α) (f : TimeFactors α) (store : Store α)
    (epoch : Int) : (next c t f store epoch : Act α σ Int).Keeps g := by
  have hlimit (split critical : α) (s : KindStats α) (length : α) (kind : Fin 6) :
      (limit c f split critical s length kind : Act α σ α).Keeps g := by
    rw [limit]
    split
    · exact .pure _
    · exact .bind (.lift _) fun v => .bind (.tell _) fun _ => .ite (.pure _) (.pure _)
  rw [next, longest]
  refine .bind ?_ fun length => .bind (.tell _) fun _ => ?_
  · split
    · exact .fail_bind _ _
    · refine .bind ?_ fun s => .bind (.lift _) fun split => .bind (.lift _) fun critical => ?_
      · exact .bind (.reduce _ _) fun _ => .bind (.reduce _ _) fun _ => .bind (.reduce _ _) fun _ =>
          .pure _
      · exact .foldlM (hlimit split critical _) _ _
  · exact .ite (.bind (.tell _) fun _ => .pure _) (.pure _)

theorem Criterion.keeps_desired (c : Config α) (t : Timeline α) (i : Instant α)
    (ps : List (Particle α))
    (most epoch : Int) : (desired c t i ps most epoch : Act α σ _).Keeps g := by
  rw [desired]
  split
  · exact .pure _
  · exact .bind (.lift _) fun ls => .bind (.tellAll _) fun _ => .bind (.tellAll _) fun _ => .pure _

theorem Assign.keeps_placeList (n : Nat) (mask : List Bool) (desired : List Int)
    (pairs : List (Int × Int)) : (placeList n mask desired pairs : Act α σ _).Keeps g := by
  rw [placeList]
  split
  · exact .fail_bind _ _
  · dsimp only
    split
    · exact .fail_bind _ _
    · exact .ite (.bind (.tell _) fun _ => .pure _) (.pure _)

end Keeps

namespace Stepper

/-- What stays until the end of a cycle. -/
def log (s : Stepper α n) : MeshStep × Nat × List (Row α) × List (Int × Snapshot α) :=
  (s.mesh, s.cycle, s.rows, s.shots)

def station (s : Stepper α n) := (s.current, s.log)

def moment (s : Stepper α n) := (s.instant, s.station)

variable {u : Setup α}

section Keeps

section Arrive

variable {γ : Type} {g : Stepper α n → γ}

theorem keeps_setTime (h : ∀ s x i, g { s with scaleFactor := x, instant := i } = g s) (a : α) :
    (setTime u a : Step α n Unit).Keeps g :=
  .bind (.modify fun s => h s a s.instant) fun _ => .bind (.lift _) fun i =>
    .modify fun s => h s s.scaleFactor i

theorem keeps_recount (h : ∀ s r is, g { s with registry := r, active := is } = g s) :
    (recount : Step α n Unit).Keeps g :=
  .get_bind fun s => Act.Keeps.set_bind (h s _ s.active) (.bind (.lift _) fun is =>
    .bind (.modify fun s => h s s.registry is) fun _ => .tell _)

theorem keeps_checkCounts : (checkCounts : Step α n Unit).Keeps g := .bind .get fun _ => .lift _

/-- What does not depend on the tick that a rank goes to, or on what it counts there, stays. -/
theorem keeps_arrive_of
    (h : ∀ s r now x i is due, g { s with
      registry := r
      current := now
      scaleFactor := x
      instant := i
      active := is
      due := due } = g s)
    (s : Stepper α n) (next : Tick) : (arrive u s next : Step α n _).Keeps g := by
  rw [arrive]
  split
  · exact .fail_bind _ _
  refine .bind (.modify fun s => h s _ next s.scaleFactor s.instant s.active s.due) fun _ => ?_
  refine .bind (keeps_setTime (fun s x i => h s s.registry s.current x i s.active s.due) _)
    fun _ => ?_
  refine .bind (keeps_recount fun s r is => h s r s.current s.scaleFactor s.instant is s.due)
    fun _ => ?_
  refine .bind keeps_checkCounts fun _ => .bind (.modify fun s => ?_) fun _ => ?_
  · exact h s s.registry s.current s.scaleFactor s.instant s.active _
  · exact .bind .get fun _ => .bind (.tell _) fun _ => .pure _

end Arrive

theorem always_arrive {s : Stepper α n} {next : Tick}
    (h : ¬ next.toAbsolute u.timebase < currentAbsolute u s) (t : Stepper α n) :
    (arrive u s next).Always (fun _ t' => t'.station = (next, t.log)) t
      fun _ t' => t'.station = (next, t.log) := by
  rw [arrive, if_neg h]
  refine Act.always_bind.2 (Act.always_modify.2 ?_)
  have htime := keeps_setTime (n := n) (u := u) (g := station) (fun _ _ _ => rfl)
    (u.timeline.scaleFactor (next.toAbsolute u.timebase))
  refine htime.bind (fun _ => ?_)
    { t with registry := (s.registry.markDue next).1, current := next }
  refine .bind (keeps_recount fun _ _ _ => rfl) fun _ => ?_
  refine .bind keeps_checkCounts fun _ => .bind (.modify fun _ => rfl) fun _ => ?_
  exact .bind .get fun s => .bind (.tell _) fun _ => .pure _

theorem keeps_arrive (s : Stepper α n) (next : Tick) : (arrive u s next : Step α n _).Keeps log :=
  keeps_arrive_of (fun _ _ _ _ _ _ _ => rfl) s next

theorem keeps_synchronize : (synchronize u : Step α n _).Keeps log := by
  simp only [synchronize_eq, agree, bind_assoc, pure_bind]
  refine .bind (.modify fun _ => rfl) fun _ => .bind .get fun s => .bind ?_ fun next =>
    keeps_arrive s next
  refine .bind (.reduce _ _) fun agreed => ?_
  split
  · exact .fail _
  · exact .bind (.tell _) fun _ => .pure _

theorem keeps_onStore {β : Type} (x : Act α (Store α) β) :
    (onStore x : Step α n β).Keeps moment := by
  refine .within ?_ x
  intro st s
  rfl

theorem keeps_callForces {γ : Type} {g : Stepper α n → γ}
    (h : ∀ st seen s, g { s with store := st, seen := seen } = g s) (forces : Option (Forces α))
    (tick : Tick) : (callForces forces tick).Keeps g := by
  rw [callForces_eq]
  refine .get_bind fun s => Act.Keeps.set_bind (h s.store _ s) ?_
  exact Act.Keeps.within (fun st (s : Stepper α n) => h st s.seen s) _

theorem keeps_relax {γ : Type} {g : Stepper α n → γ} (h : ∀ st s, g { s with store := st } = g s) :
    (relax u).Keeps g := by
  rw [relax]
  exact .ite (.bind (.within h _) fun _ => .pure _) (.pure _)

theorem keeps_prepare_of {γ : Type} {g : Stepper α n → γ}
    (hphase : ∀ p s, g { s with phase := p } = g s)
    (hstore : ∀ st seen s, g { s with store := st, seen := seen } = g s)
    (forces : Option (Forces α)) (tick : Tick) : (prepare u forces tick).Keeps g :=
  .bind (.modify (hphase _)) fun _ => .bind (keeps_callForces hstore _ _) fun _ =>
    .bind .get fun _ => .bind (.modify (hphase _)) fun _ =>
      .bind (keeps_relax fun st s => hstore st s.seen s) fun _ => .pure _

theorem keeps_prepare (forces : Option (Forces α)) (tick : Tick) :
    (prepare u forces tick : Step α n Nat).Keeps moment :=
  keeps_prepare_of (fun _ _ => rfl) (fun _ _ _ => rfl) forces tick

theorem keeps_meshTicks {γ : Type} {g : Stepper α n → γ} (s : Stepper α n) :
    (meshTicks u s).Keeps g :=
  .ite (MeshStep.keeps_next _ _ _ _ _) (.pure _)

theorem keeps_commonSteps {γ : Type} {g : Stepper α n → γ} (ds : List (DesiredStep α)) :
    (commonSteps u ds).Keeps g := by
  refine .ite (.bind (.reduce _ _) fun least => ?_) (.pure _)
  split
  · exact .fail_bind _ _
  · exact .pure _

theorem keeps_allot {γ : Type} {g : Stepper α n → γ} (s : Stepper α n) (most : Int) :
    (allot u s most).Keeps g :=
  .bind (Criterion.keeps_desired _ _ _ _ _ _) fun ds => .bind (keeps_commonSteps ds) fun _ =>
    .bind (Assign.keeps_placeList _ _ _ _) fun _ => .pure _

theorem keeps_choose {γ : Type} {g : Stepper α n → γ} (s : Stepper α n) : (choose u s).Keeps g :=
  .bind (keeps_meshTicks s) fun most => keeps_allot s most

theorem keeps_turnAll (toMiddle : Bool) (s : Stepper α n) (ts : List (Turn α)) :
    (turnAll u toMiddle s ts).Keeps moment := by
  refine .bind ?_ fun moved => .bind (.modify fun _ => rfl) fun _ =>
    .bind (keeps_onStore _) fun _ => .bind (keeps_onStore _) fun _ => .pure _
  exact .get_bind fun s => Act.Keeps.set_bind rfl (.bind (.lift _) fun b =>
    .bind (keeps_onStore _) fun _ => .pure _)

end Keeps

section Always

variable {s : Stepper α n} {next : Tick} {mesh : MeshStep}

/-- A cycle is refused where the run has been aborted or has come to its end, and is open
elsewhere. -/
theorem always_runCycle_of_open {forces : Option (Forces α)} {E : Fault → Stepper α n → Prop}
    {R : Report α → Stepper α n → Prop} (haborted : E .runAborted s) (hfinished : E .runFinished s)
    (hopen : (openCycle u forces).Always E s R) : (runCycle u forces).Always E s R := by
  by_cases hp : s.phase = .aborted
  · exact (does_runCycle_of_aborted u forces hp).always_error.2 haborted
  by_cases hfin : isFinished u s
  · exact (does_runCycle_of_finished forces hp hfin).always_error.2 hfinished
  rw [Act.Always, runCycle_apply forces hp hfin]
  exact hopen

theorem always_synchronize : (synchronize u).Always (fun e _ => e.isPlain) s fun r s' =>
    s'.Ready u r.1 s.mesh ∧ s'.store = s.store := by
  simp only [synchronize_eq, agree, bind_assoc, pure_bind]
  refine Act.always_bind.2 (Act.always_modify.2 (Act.always_bind.2 (Act.always_get.2 ?_)))
  rw [Registry.agreeSync]
  refine Act.always_bind.2 (Act.always_bind.2 (Act.always_reduce.2 fun agreed _ => ?_))
  dsimp only
  cases Tick.ofAbsolute? agreed u.timebase with
  | none => exact Act.always_fail.2 rfl
  | some next =>
    refine Act.always_bind.2 (Act.always_tell.2 (Act.always_pure.2 ?_))
    by_cases hlt : next.toAbsolute u.timebase < currentAbsolute u { s with phase := .sync }
    · exact (does_arrive_of_lt hlt).always_error.2 rfl
    · refine (ends_arrive (Int.not_lt.1 hlt)).always.mono ?_ ?_
      · rintro r s' ⟨rfl, hready, hstore, -⟩
        exact ⟨hready, hstore⟩
      · rintro e _ (he | ⟨-, he, -⟩)
        · exact Fault.isPlain_of_isNumeric (Config.isNumeric_instant he)
        · exact he

theorem always_callForces {forces : Option (Forces α)} {E : Fault → Prop} {K : Store α → Prop}
    (tick : Tick)
    (hf : (Forces.act forces s.seen.length s.active tick).Always (fun e _ => E e) s.store
      fun _ st => K st) (hK : ∀ st, K st → st.slots = s.store.slots) (h : s.Ready u next mesh) :
    (callForces forces tick).Always (fun e _ => E e) s fun _ s' =>
      s'.Ready u next mesh ∧ K s'.store := by
  rw [callForces_eq]
  refine Act.always_bind.2 (Act.always_get.2 (Act.always_bind.2 (Act.always_set.2 ?_)))
  refine Act.always_within.2 (hf.mono (fun _ st hst => ?_) fun _ _ he => he)
  have hr := h.withStore (hK st hst)
  exact ⟨hr.withRecords, hst⟩

theorem always_relax (h : s.Ready u next mesh) :
    (relax u).Always (fun e _ => e.isNumeric) s fun _ s' =>
      s'.Ready u next mesh ∧ s'.store.marks = s.store.marks := by
  rw [relax]
  split
  · apply Act.always_bind.2
    apply Act.always_within.2
    apply ((Glass.always_make _ _).and (Glass.keeps_make _ s.store)).mono ?_ fun _ _ he => he.1
    rintro _ st ⟨-, hst⟩
    exact Act.always_pure.2 ⟨h.withStore (Store.slots_of_marks hst), hst⟩
  · exact Act.always_pure.2 ⟨h, rfl⟩

/-- Forces that leave the slots, and a glass, leave a rank ready; also the number of its due
particles. -/
theorem always_prepare {forces : Option (Forces α)} {E : Fault → Prop}
    (hE : ∀ e, e.isNumeric → E e) (hf : ∀ k active tick store,
      (Forces.act forces k active tick).Always (fun e _ => E e) store
        fun _ st => st.slots = store.slots)
    (h : s.Ready u next mesh) : (prepare u forces next).Always (fun e _ => E e) s fun active s' =>
      s'.Ready u next mesh ∧ s'.store.slots = s.store.slots ∧ active = s.active.length := by
  rw [prepare]
  refine Act.always_bind.2 (Act.always_modify.2 (Act.always_bind.2 ?_))
  have h₁ : Ready u next mesh { s with phase := .forces } := h.withRecords
  refine ((always_callForces next (hf _ _ _ _) (fun _ hst => hst) h₁).and (keeps_callForces
    (g := Stepper.active) (fun _ _ _ => rfl) forces next _)).mono ?_ fun _ _ he => he.1
  rintro _ s₂ ⟨⟨h₂, hs₂⟩, hactive⟩
  refine Act.always_bind.2 (Act.always_get.2 (Act.always_bind.2 (Act.always_modify.2
    (Act.always_bind.2 ?_))))
  have h₃ : Ready u next mesh { s₂ with phase := .assign } := h₂.withRecords
  refine (always_relax h₃).mono ?_ fun e _ he => hE e he
  rintro _ s₄ ⟨h₄, hs₄⟩
  exact Act.always_pure.2 ⟨h₄, (Store.slots_of_marks hs₄).trans hs₂, congrArg List.length hactive⟩

/-- A rank that does not go back is ready for new steps at the tick. -/
theorem always_land_ready {forces : Option (Forces α)} {E : Fault → Prop}
    (hE : ∀ e, e.isPlain → E e) (hf : ∀ k active tick store,
      (Forces.act forces k active tick).Always (fun e _ => E e) store
        fun _ st => st.slots = store.slots)
    (h : currentAbsolute u s ≤ next.toAbsolute u.timebase) :
    (land u forces s next).Always (fun e _ => E e) s fun _ t =>
      t.Ready u next s.mesh ∧ t.store.slots = s.store.slots := by
  rw [land]
  apply Act.always_bind.2
  apply (ends_arrive h).always.mono
  · rintro r t ⟨rfl, ht, hst, -⟩
    apply Act.always_bind.2
    apply (always_prepare (fun e he => hE e (Fault.isPlain_of_isNumeric he)) hf ht).mono ?_
      fun _ _ he => he
    rintro active t' ⟨ht', hst', -⟩
    rw [hst] at hst'
    exact Act.always_pure.2 ⟨ht', hst'⟩
  · rintro e _ (he | ⟨-, he, -⟩)
    · exact hE e (Fault.isPlain_of_isNumeric (Config.isNumeric_instant he))
    · exact hE e he

theorem always_lead {forces : Option (Forces α)} {E : Fault → Prop} (hE : ∀ e, e.isPlain → E e)
    (hf : ∀ k active tick store, (Forces.act forces k active tick).Always (fun e _ => E e) store
      fun _ st => st.slots = store.slots) :
    (lead u forces).Always (fun e _ => E e) s fun e t =>
      t.Ready u e.1 s.mesh ∧ t.store.slots = s.store.slots ∧ t.log = s.log := by
  rw [lead]
  apply Act.always_bind.2
  apply (always_synchronize.and (keeps_synchronize s)).mono ?_ fun e _ he => hE e he.1
  rintro r s₁ ⟨⟨h₁, hs₁⟩, hlog₁⟩
  apply Act.always_bind.2
  apply ((always_prepare (fun e he => hE e (Fault.isPlain_of_isNumeric he)) hf h₁).and
    (keeps_prepare forces r.1 s₁)).mono ?_ fun _ _ he => he.1
  rintro active s₂ ⟨⟨h₂, hs₂, -⟩, hlog₂⟩
  rw [hs₁] at hs₂
  exact Act.always_pure.2 ⟨h₂, hs₂, (congrArg (·.2.2) hlog₂).trans hlog₁⟩

/-- The faults of all ranks end the run, or the cycle ends. -/
theorem always_sumUp {s t : Stepper α n} {a : Allotment α} {toMiddle : Bool}
    {E : Fault → Stepper α n → Prop} {R : Unit → Stepper α n → Prop}
    (h : currentAbsolute u s = s.mesh.stop → TickCount.IsStep a.most ∧ s.mesh = t.mesh)
    (hok : R () (concluded u toMiddle (currentAbsolute u s == s.mesh.stop) a.most t))
    (herror : ∀ all : Int, all ≠ 0 → E (.degenerateSteps all) (aborted all t)) :
    (sumUp u toMiddle s a).Always E t R := by
  rw [sumUp]
  apply Act.always_bind.2
  apply Act.always_reduce.2
  intro all _
  have hall (all : Int) : (conclude u toMiddle (currentAbsolute u s == s.mesh.stop) a.most
      (currentAbsolute u s) all).Always E t R := by
    by_cases hzero : all = 0
    · rw [hzero]
      refine (does_conclude fun hat => ?_).always_ok.2 hok
      have hstop := beq_iff_eq.1 hat
      rw [← (h hstop).2]
      exact ⟨(h hstop).1, hstop⟩
    · exact (does_conclude_of_ne hzero t).always_error.2 (herror all hzero)
  exact hall all

/-- A rank that is ready carries out its allotment: its due particles take their turns, and the
cycle ends. -/
theorem always_carryOut {a : Allotment α} {toMiddle : Bool} {E : Fault → Stepper α n → Prop}
    {R : Nat → Stepper α n → Prop} (hn : 2 ≤ n) (h : s.Ready u next mesh) (ha : a.IsFor u s)
    (hok : ∀ moved W r, (turned u toMiddle s W r).Ready u next mesh →
      R moved (concluded u toMiddle (currentAbsolute u s == s.mesh.stop) a.most
        (turned u toMiddle s W r)))
    (hgap : ∀ e t, e.isGap → ¬ (u.kicker.isChecked → ∀ p ∈ s.store, s.registry.isDue p →
      p.kickTick = p.midpoint) → E e t)
    (herror : ∀ (all : Int) t, E (.degenerateSteps all) t) :
    (carryOut u toMiddle s a).Always E s R := by
  obtain ⟨W, hW⟩ := ha.exists_turns
  rw [carryOut, hW]
  apply Act.always_bind.2
  apply (ends_turnAll h hn toMiddle W).always.mono ?_ fun e t he => hgap e t he.1 he.2
  rintro moved t ⟨-, r, rfl, hcounts, hactive, -⟩
  apply Act.always_bind.2
  apply always_sumUp
  · intro hm
    obtain ⟨stats, hstats⟩ := ha.renewed hm
    exact ⟨MeshStep.isStep_of_ticksOf hstats, rfl⟩
  · exact Act.always_pure.2 (hok moved W r (h.turned hn toMiddle W hcounts hactive))
  · exact fun all _ => herror all _

end Always

end Stepper

end BlockStep
