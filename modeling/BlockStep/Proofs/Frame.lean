import BlockStep.Proofs.Halves

namespace BlockStep

variable {α σ : Type} {m n : Nat}

/-- What may become of a due particle: it moves on to another step, and gas is heated. -/
structure Particle.Turned (isChecked : Bool) (p q : Particle α) : Prop where
  rest : q = { p with
    vel := q.vel
    bin := q.bin
    stepStart := q.stepStart
    kickTick := q.kickTick
    energy := q.energy
    energyRate := q.energyRate }
  kickTick : ¬ isChecked → q.kickTick = p.kickTick
  heat : ¬ p.isGas → q.energy = p.energy ∧ q.energyRate = p.energyRate

namespace Particle.Turned

variable {isChecked : Bool} {p q : Particle α}

theorem refl (p : Particle α) : p.Turned isChecked p where
  rest := rfl
  kickTick _ := rfl
  heat _ := ⟨rfl, rfl⟩

theorem isGas (h : p.Turned isChecked q) : q.isGas = p.isGas := by
  rw [h.rest]
  rfl

theorem withVel (h : p.Turned isChecked q) (v : Vec3 α) :
    p.Turned isChecked (Kick.withVel q v) where
  rest := by
    rw [h.rest]
    rfl
  kickTick := h.kickTick
  heat := h.heat

theorem withGas (h : p.Turned isChecked q) (hp : p.isGas) (g : Kick.GasState α) :
    p.Turned isChecked (Kick.withGas g q) where
  rest := by
    rw [h.rest]
    rfl
  kickTick := h.kickTick
  heat hn := absurd hp hn

theorem withBin (h : p.Turned isChecked q) (b : Int) : p.Turned isChecked { q with bin := b } where
  rest := by
    rw [h.rest]
  kickTick := h.kickTick
  heat := h.heat

theorem withStart (h : p.Turned isChecked q) (t : Int) :
    p.Turned isChecked { q with stepStart := t } where
  rest := by
    rw [h.rest]
  kickTick := h.kickTick
  heat := h.heat

theorem withKickTick (h : p.Turned isChecked q) (hc : isChecked) (t : Int) :
    p.Turned isChecked { q with kickTick := t } where
  rest := by
    rw [h.rest]
  kickTick hn := absurd hc hn
  heat := h.heat

end Particle.Turned

namespace Store

variable {β : Type} {R R' : Nat → Particle α → Particle α → Prop} {s t : Store α}

/-- No particle is gained or lost, and each is after as `R` allows at its place. -/
structure Framed (R : Nat → Particle α → Particle α → Prop) (s t : Store α) : Prop where
  size : t.size = s.size
  cell : ∀ {j p}, s[j]? = some p → ∃ q, t[j]? = some q ∧ R j p q

namespace Framed

theorem refl (h : ∀ j p, R j p p) (s : Store α) : s.Framed R s := ⟨rfl, fun hp => ⟨_, hp, h _ _⟩⟩

theorem modify (h : s.Framed R t) {i : Nat} {f : Particle α → Particle α}
    (hf : ∀ p q, s[i]? = some p → R i p q → R i p (f q)) : s.Framed R (t.modify i f) := by
  refine ⟨Array.size_modify.trans h.size, ?_⟩
  intro j p hp
  obtain ⟨q, hq, hR⟩ := h.cell hp
  by_cases hij : i = j
  · subst hij
    exact ⟨f q, by rw [Array.getElem?_modify, if_pos rfl, hq, Option.map_some], hf p q hp hR⟩
  · exact ⟨q, by rw [Array.getElem?_modify, if_neg hij, hq], hR⟩

/-- Listed places are written one after the other. -/
theorem scatter (h : s.Framed R t) {change : β → Particle α → Particle α} {places : List Nat}
    (values : List β)
    (hstep : ∀ i ∈ places, ∀ v p q, s[i]? = some p → R i p q → R i p (change v q)) :
    s.Framed R (t.scatter change places values) := by
  induction places generalizing t values with
  | nil => exact h
  | cons i is ih =>
    cases values with
    | nil => exact h
    | cons v vs =>
      have hfirst : s.Framed R (t.modify i (change v)) :=
        h.modify (hstep i List.mem_cons_self v)
      exact ih hfirst vs fun j hj => hstep j (List.mem_cons_of_mem i hj)

end Framed

/-- Only active particles change, and they as a new step changes them. -/
def Turns (isChecked : Bool) (active : List Nat) (j : Nat) (p q : Particle α) : Prop :=
  p.Turned isChecked q ∧ (j ∉ active → q = p)

variable {isChecked : Bool} {active places : List Nat}

theorem Framed.turns_refl (s : Store α) : s.Framed (Turns isChecked active) s :=
  .refl (fun _ p => ⟨.refl p, fun _ => rfl⟩) s

/-- Active places are written one after the other. -/
theorem Framed.turns (h : s.Framed (Turns isChecked active) t) (hplaces : ∀ i ∈ places, i ∈ active)
    {change : β → Particle α → Particle α} (values : List β)
    (hchange : ∀ i ∈ places, ∀ v p q, s[i]? = some p → p.Turned isChecked q →
      p.Turned isChecked (change v q)) :
    s.Framed (Turns isChecked active) (t.scatter change places values) :=
  h.scatter values fun i hi v p q hp hq =>
    ⟨hchange i hi v p q hp hq.1, fun hn => absurd (hplaces i hi) hn⟩

end Store

namespace Kicker

variable [Scalar α] {r : Kicker α} {isChecked : Bool} {active : List Nat} {s t : Store α}
  {ks : List Stretch} (h : s.Framed (Store.Turns isChecked active) t)
  (hks : ∀ k ∈ ks, k.place ∈ active)

include h hks

omit [Scalar α] in
theorem framed_noted (hc : isChecked) : s.Framed (Store.Turns isChecked active) (noted t ks) := by
  refine h.turns (fun i hi => ?_) _ fun i _ v p q _ hq => hq.withKickTick hc v
  obtain ⟨k, hk, rfl⟩ := List.mem_map.1 hi
  exact hks k hk

theorem framed_kicked (f : TimeFactors α) :
    s.Framed (Store.Turns isChecked active) (r.kicked f t ks).1 := by
  have hplaces : ∀ i ∈ ks.map (·.place), i ∈ active := by
    intro i hi
    obtain ⟨k, hk, rfl⟩ := List.mem_map.1 hi
    exact hks k hk
  have hgas : ∀ i ∈ (ks.filter fun k => (particle t k).isGas).map (·.place),
      i ∈ active ∧ ∀ p, s[i]? = some p → p.isGas := by
    intro i hi
    obtain ⟨k, hk, rfl⟩ := List.mem_map.1 hi
    obtain ⟨hk, hisGas⟩ := List.mem_filter.1 hk
    refine ⟨hks k hk, fun p hp => ?_⟩
    obtain ⟨q, hq, hturned, -⟩ := h.cell hp
    rw [particle, hq, Option.getD_some] at hisGas
    exact hturned.isGas ▸ hisGas
  simp only [kicked]
  split
  · rw [Kick.gasInTurn_fst]
    refine Store.Framed.turns ?_ (fun i hi => (hgas i hi).1) _ fun i hi k p q hp hq => ?_
    · change s.Framed _ (t.scatter (fun k p => Kick.withVel p (p.vel + p.gravAccel.scale k)) _ _)
      exact h.turns hplaces _ fun i _ k p q _ hq => hq.withVel _
    · obtain ⟨g, hg⟩ := Kick.exists_gasOne (Kick.limits r.gas f) k q
      rw [hg]
      exact hq.withGas ((hgas i hi).2 p hp) g
  · refine Store.Framed.turns ?_ (fun i hi => (hgas i hi).1) _ fun i hi g p q hp hq => ?_
    · exact h.turns hplaces _ fun i _ v p q _ hq => hq.withVel v
    · exact hq.withGas ((hgas i hi).2 p hp) g

theorem always_shortRange (hr : r.isChecked → isChecked) (f : TimeFactors α) :
    (r.shortRange f ks).Always (fun _ t => s.Framed (Store.Turns isChecked active) t) t
      fun _ t => s.Framed (Store.Turns isChecked active) t := by
  have hkick {t : Store α} (ht : s.Framed (Store.Turns isChecked active) t) :
      (r.kickAll f ks).Always (fun _ t => s.Framed (Store.Turns isChecked active) t) t
        fun _ t => s.Framed (Store.Turns isChecked active) t := by
    refine Act.always_bind.2 (Act.always_get.2 (Act.always_bind.2 (Act.always_set.2 ?_)))
    exact Act.always_tell.2 (framed_kicked ht hks f)
  by_cases hempty : ks = []
  · rw [hempty]
    exact Act.always_pure.2 h
  rw [shortRange_eq hempty, noteAll]
  split
  next hc =>
    refine Act.always_bind.2 (Act.always_bind.2 (Act.always_get.2 ?_))
    split
    · exact Act.always_fail.2 h
    · exact Act.always_modify.2 (hkick (framed_noted h hks (hr hc)))
  · exact Act.always_bind.2 (Act.always_pure.2 (hkick h))

end Kicker

theorem MeshStep.always_isStep_next [Scalar α] (c : Config α) (t : Timeline α) (f : TimeFactors α)
    (store : Store α) (epoch : Int) (s : σ) :
    (next c t f store epoch : Act α σ Int).Always (fun _ _ => True) s fun ticks _ =>
      TickCount.IsStep ticks := by
  rw [next]
  refine Act.always_bind.2 ((Act.always_true _ _).mono (fun length s' _ => ?_) fun _ _ _ => trivial)
  have hstep := TickCount.isStep_roundDown (t.stepIn length epoch)
  refine Act.always_bind.2 (Act.always_tell.2 ?_)
  dsimp only
  split
  · exact Act.always_bind.2 (Act.always_tell.2 (Act.always_pure.2 hstep))
  · exact Act.always_pure.2 hstep

theorem Registry.active_migrate (r : Registry n) (moves : List Move) :
    (r.migrate moves).1.active = r.active := by
  simp only [migrate]
  split
  · rfl
  split
  · rfl
  split
  · rfl
  split <;> rfl

namespace Stepper

/-- A rank as its cycle may leave it before the mesh kick. -/
structure Framed (u : Setup α) (s t : Stepper α n) : Prop where
  current : t.current = s.current
  scaleFactor : t.scaleFactor = s.scaleFactor
  mesh : t.mesh = s.mesh
  mask : t.registry.active = s.registry.active
  active : t.active = s.active
  cycle : t.cycle = s.cycle
  rows : t.rows = s.rows
  store : s.store.Framed (Store.Turns u.kicker.isChecked s.active) t.store

variable {u : Setup α} {s t : Stepper α n} {ts : List (Turn α)}

theorem Framed.refl (s : Stepper α n) : Framed u s s where
  current := rfl
  scaleFactor := rfl
  mesh := rfl
  mask := rfl
  active := rfl
  cycle := rfl
  rows := rfl
  store := .turns_refl s.store

variable [Scalar α]

/-- A step that only the store takes part in. -/
theorem Framed.onStore {x : Act α (Store α) Unit} (h : Framed u s t)
    (hx : x.Always (fun _ st => s.store.Framed (Store.Turns u.kicker.isChecked s.active) st) t.store
      fun _ st => s.store.Framed (Store.Turns u.kicker.isChecked s.active) st) :
    (Stepper.onStore x).Always (fun _ t => Framed u s t) t fun _ t => Framed u s t :=
  Act.always_within.2 (hx.mono (fun _ _ hst => { h with store := hst }) fun _ _ hst =>
    { h with store := hst })

theorem always_turnAll_framed (toMiddle : Bool) (h : Framed u s t)
    (hts : ∀ k ∈ ts, k.place ∈ s.active) :
    (turnAll u toMiddle s ts).Always (fun _ t => Framed u s t) t fun _ t => Framed u s t := by
  have hplaces : ∀ i ∈ ts.map (·.place), i ∈ s.active := by
    intro i hi
    obtain ⟨k, hk, rfl⟩ := List.mem_map.1 hi
    exact hts k hk
  rw [turnAll, applyMoves]
  refine Act.always_bind.2 (Act.always_bind.2 (Act.always_get.2 ?_))
  have hmask := Registry.active_migrate t.registry (ts.map Turn.move)
  have hmoved : Framed u s { t with registry := (t.registry.migrate (ts.map Turn.move)).1 } :=
    { h with mask := hmask.trans h.mask }
  refine Act.always_bind.2 (Act.always_set.2
    (Act.always_bind.2 (Act.always_lift ?_ fun _ _ => hmoved)))
  intro moved _
  refine Act.always_bind.2 ((hmoved.onStore ?_).mono ?_ fun _ _ h => h)
  · exact Act.always_modify.2 (hmoved.store.turns hplaces _ fun i _ b p q _ hq => hq.withBin b)
  intro _ t₁ h₁
  refine Act.always_pure.2 (Act.always_bind.2 (Act.always_modify.2 ?_))
  have hphase : Framed u s { t₁ with phase := .kick } := { h₁ with }
  refine Act.always_bind.2 ((hphase.onStore ?_).mono ?_ fun _ _ h => h)
  · exact Act.always_modify.2 (h₁.store.turns hplaces _ fun i _ b p q _ hq => hq.withStart b)
  intro _ t₂ h₂
  refine Act.always_bind.2 ((h₂.onStore ?_).mono (fun _ _ h => Act.always_pure.2 h) fun _ _ h => h)
  refine Kicker.always_shortRange h₂.store (fun k hk => ?_) id _
  obtain ⟨e, he, rfl⟩ := List.mem_map.1 hk
  exact hts e he

theorem mem_active_of_mem_turns {placed : List Assign.Placement} {k : Turn α}
    (hk : k ∈ s.turns placed) : k.place ∈ s.active := by
  rw [turns, ← List.map_uncurry_zip_eq_zipWith] at hk
  obtain ⟨⟨e, p⟩, he, rfl⟩ := List.mem_map.1 hk
  exact (List.of_mem_zip (List.of_mem_zip he).1).1

/-- A rank in any state allots steps under a mesh step that a bin can have. -/
theorem always_choose_isStep (s : Stepper α n) :
    (choose u s).Always (fun _ t => t = s) s fun a t => t = s ∧
      (currentAbsolute u s = s.mesh.stop → TickCount.IsStep a.most) := by
  have hmesh : (meshTicks u s).Always (fun _ t => t = s) s fun ticks t => t = s ∧
      (currentAbsolute u s = s.mesh.stop → TickCount.IsStep ticks) := by
    rw [meshTicks]
    split
    next hat =>
      refine ((MeshStep.keeps_next (g := id) _ _ _ _ _ s).and
        (MeshStep.always_isStep_next _ _ _ _ _ s)).mono
        (fun ticks t ht => ⟨ht.1, fun _ => ht.2⟩) fun _ _ ht => ht.1
    next hat => exact Act.always_pure.2 ⟨rfl, fun he => absurd (beq_iff_eq.2 he) hat⟩
  rw [choose]
  apply Act.always_bind.2
  apply hmesh.mono ?_ fun _ _ ht => ht
  rintro most t ⟨ht, hstep⟩
  rw [ht, allot]
  apply Act.always_bind.2
  apply (Criterion.keeps_desired (g := id) _ _ _ _ _ _ s).mono ?_ fun _ _ ht => ht
  rintro ds t rfl
  apply Act.always_bind.2
  apply (keeps_commonSteps (g := id) ds t).mono ?_ fun _ _ ht => ht
  rintro ticks t' rfl
  apply Act.always_bind.2
  apply (Assign.keeps_placeList (g := id) _ _ _ _ t').mono ?_ fun _ _ ht => ht
  rintro placed t'' rfl
  exact Act.always_pure.2 ⟨rfl, hstep⟩

/-- A rank at the end of a cycle without faults: at a mesh boundary it has given all particles the
mesh kick. -/
def Concluded (u : Setup α) (toMiddle : Bool) (s t : Stepper α n) : Prop :=
  ∃ (t₀ : Stepper α n) (ticks : Int), Framed u s t₀ ∧
    t = concluded u toMiddle (currentAbsolute u s == s.mesh.stop) ticks t₀

theorem always_carryOut_framed {toMiddle : Bool} {a : Allotment α}
    (ha : currentAbsolute u s = s.mesh.stop → TickCount.IsStep a.most) :
    (carryOut u toMiddle s a).Always (fun _ t => Framed u s t) s fun _ t =>
      Concluded u toMiddle s t := by
  rw [carryOut]
  apply Act.always_bind.2
  apply (always_turnAll_framed toMiddle (.refl s) fun _ => mem_active_of_mem_turns).mono ?_
    fun _ _ h => h
  intro moved t ht
  apply Act.always_bind.2
  apply always_sumUp
  · exact fun hat => ⟨ha hat, ht.mesh.symm⟩
  · exact Act.always_pure.2 ⟨t, a.most, ht, rfl⟩
  · exact fun _ _ => { ht with }

theorem always_advance_framed (hglass : ¬ u.config.features.makeGlass) (toMiddle : Bool)
    (s : Stepper α n) : (advance u toMiddle).Always
      (fun _ t => Framed u { s with phase := .assign } t) s
      fun _ t => Concluded u toMiddle { s with phase := .assign } t := by
  rw [advance_eq, relax, if_neg hglass, proceed]
  apply Act.always_bind.2
  apply Act.always_modify.2
  apply Act.always_bind.2
  apply Act.always_pure.2
  apply Act.always_bind.2
  apply Act.always_get.2
  apply Act.always_bind.2
  apply (always_choose_isStep _).mono
  · rintro a t ⟨rfl, ha⟩
    exact always_carryOut_framed ha
  · rintro _ t rfl
    exact .refl _

/-- How far a cycle from `s` to `t` reaches. Particles that are not due keep all their columns, up
to the mesh kick at a boundary of a cycle that comes to its end, which is one for all of them. -/
structure Reaches (u : Setup α) (toMiddle isDone : Bool) (s t : Stepper α n) : Prop where
  current : t.current = s.current
  scaleFactor : t.scaleFactor = s.scaleFactor
  mask : t.registry.active = s.registry.active
  active : t.active = s.active
  cycle : t.cycle = s.cycle
  rows : t.rows = s.rows
  size : t.store.size = s.store.size
  due : ∀ j ∈ s.active, ∀ p, s.store[j]? = some p →
    ∃ q, t.store[j]? = some q ∧ p.Turned u.kicker.isChecked q
  idle : ∀ j, j ∉ s.active → ∀ p, s.store[j]? = some p →
    t.store[j]? = some (if isDone ∧ currentAbsolute u s = s.mesh.stop then
      { p with vel := p.vel + p.meshAccel.scale (u.kicker.source.factor s.mesh.kickTick
        (if toMiddle then t.mesh.kickTick else s.mesh.stop) .gravity) }
      else p)

theorem Framed.reaches (h : Framed u s t) (toMiddle isDone : Bool)
    (hd : ¬ (isDone ∧ currentAbsolute u s = s.mesh.stop)) : Reaches u toMiddle isDone s t where
  current := h.current
  scaleFactor := h.scaleFactor
  mask := h.mask
  active := h.active
  cycle := h.cycle
  rows := h.rows
  size := h.store.size
  due j _ p hp := by
    obtain ⟨q, hq, hturned, -⟩ := h.store.cell hp
    exact ⟨q, hq, hturned⟩
  idle j hj p hp := by
    obtain ⟨q, hq, -, hidle⟩ := h.store.cell hp
    rw [if_neg hd, hq, hidle hj]

theorem Concluded.reaches {toMiddle : Bool} (h : Concluded u toMiddle s t) :
    Reaches u toMiddle true s t := by
  obtain ⟨t₀, ticks, h₀, rfl⟩ := h
  by_cases hat : currentAbsolute u s = s.mesh.stop
  · have hbeq : (currentAbsolute u s == s.mesh.stop) = true := beq_iff_eq.2 hat
    simp only [concluded, hbeq, if_true]
    refine { h₀ with size := Array.size_map.trans h₀.store.size, due := ?_, idle := ?_ }
    · intro j _ p hp
      obtain ⟨q, hq, hturned, -⟩ := h₀.store.cell hp
      refine ⟨meshKick toMiddle u.kicker t₀.mesh ticks q, ?_, hturned.withVel _⟩
      rw [Array.getElem?_map, hq, Option.map_some]
    · intro j hj p hp
      obtain ⟨q, hq, -, hidle⟩ := h₀.store.cell hp
      rw [if_pos ⟨rfl, hat⟩, Array.getElem?_map, hq, Option.map_some, hidle hj, h₀.mesh]
      rfl
  · have hbeq : ¬ (currentAbsolute u s == s.mesh.stop) = true := fun h => hat (beq_iff_eq.1 h)
    simp only [concluded, if_neg hbeq]
    have hdone : Framed u s { t₀ with phase := .done } := { h₀ with }
    exact hdone.reaches toMiddle true fun h => hat h.2

end Stepper

/-- However a cycle ends on a rank, whatever the other ranks do, it reaches the particles that are
due and of these the columns of their steps and kicks; other particles are reached by the mesh kick
alone. -/
theorem Ranks.cycle_reaches_due [Scalar α] {u : Ranks m (Setup α)} {s : Ranks m (Stepper α n)}
    (hglass : ∀ i, ¬ (u i).config.features.makeGlass) (toMiddle : Bool) {i : Fin (m + 1)}
    {r : Except Fault Nat} {t : Stepper α n}
    (h : Settles (fun i => Stepper.advance (u i) toMiddle) s i r t) :
    Stepper.Reaches (u i) toMiddle r.isOk (s i) t := by
  have hx := fun i => Stepper.always_advance_framed (hglass i) toMiddle (s i)
  cases r with
  | ok moved =>
    have hdone := (h.of_always hx).reaches
    exact { hdone with }
  | error e =>
    have herror := (h.of_always_error hx).reaches toMiddle false fun h => Bool.false_ne_true h.1
    exact { herror with }

theorem Ranks.cycle_reaches_due_sample :
    ∃ (s t : Ranks 1 (Stepper Rat Sample.fleet.setup.bins)) (moved : Nat),
      ((s 0).active = [0] ∧ (s 0).store.size = 2 ∧
        Stepper.currentAbsolute (Sample.fleet.on 0) (s 0) = (s 0).mesh.stop) ∧
      Settles (fun i => Stepper.advance (Sample.fleet.on i) true) s 0 (.ok moved) (t 0) ∧
      Stepper.Reaches (Sample.fleet.on 0) true true (s 0) (t 0) := by
  have hrun : ∃ s ∈ Sample.fleet.performed? Sample.pulledStore Sample.toMeshEnd 2,
      ((s 0).store.size = 2 ∧
        Stepper.currentAbsolute (Sample.fleet.on 0) (s 0) = (s 0).mesh.stop) ∧
      (states? (fun i => Stepper.advance (Sample.fleet.on i) true)
        fun i => { s i with active := [0] }).isSome := by
    decide +kernel
  obtain ⟨s, -, ⟨hsize, hstop⟩, hsome⟩ := hrun
  obtain ⟨t, ht⟩ := Option.isSome_iff_exists.1 hsome
  obtain ⟨moved, hmoved⟩ := exists_finish_of_states? ht
  have hglass : ∀ i, ¬ (Sample.fleet.on i).config.features.makeGlass := fun _ => Bool.false_ne_true
  have hreaches := cycle_reaches_due hglass true (hmoved.settles 0)
  exact ⟨fun i => { s i with active := [0] }, t, moved 0, ⟨rfl, hsize, hstop⟩,
    hmoved.settles 0, hreaches⟩

end BlockStep
