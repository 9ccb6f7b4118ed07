import BlockStep.Proofs.Desire
import BlockStep.Proofs.Selection

namespace BlockStep

variable {α : Type} [Scalar α]

namespace Kick

/-- What a kick of all gas at once makes of one gas particle. -/
def gasState (l : GasLimits α) (k : GasKick α) (p : Particle α) : GasState α :=
  let v := p.vel + p.hydroAccel.scale k.factor
  let v := if l.speed < v.norm then v.scale (l.speed / v.norm) else v
  let u :=
    if p.energyRate * k.length < -0.5 * p.energy then 0.5 * p.energy
    else p.energy + p.energyRate * k.length
  let isBelow := decide ((0.0 : α) < l.energy ∧ u < leastEnergy l p.eomDensity)
  let u := if isBelow then leastEnergy l p.eomDensity else u
  ⟨v, u, rateLimited k.next u (if isBelow then 0.0 else p.energyRate)⟩

/-- Particles that are read and written in turn change each by itself. -/
theorem gasInTurn_fst (l : GasLimits α) (s : Store α) (places : List Nat) (ks : List (GasKick α)) :
    (gasInTurn l s places ks).1 = s.scatter (fun k p => (gasOne l k p).1) places ks := by
  rw [gasInTurn, Store.scatter]
  generalize places.zip ks = es
  change _ = es.foldl (fun s e => s.modify e.1 fun p => (gasOne l e.2 p).1)
    ((s, 0) : Store α × Nat).1
  generalize ((s, 0) : Store α × Nat) = r
  induction es generalizing r with
  | nil => rfl
  | cons e es ih =>
    rw [List.foldl_cons, List.foldl_cons, ih]
    congr 1
    apply Array.ext_getElem?
    intro i
    rw [Array.getElem?_modify]
    cases he : r.1[e.1]? with
    | none =>
      by_cases hi : e.1 = i
      · rw [if_pos hi, ← hi, he]
        rfl
      · rw [if_neg hi]
    | some p =>
      obtain ⟨hlt, -⟩ := Array.getElem?_eq_some_iff.1 he
      simp only [Array.set!_eq_setIfInBounds, Array.getElem?_setIfInBounds]
      by_cases hi : e.1 = i
      · rw [if_pos hi, if_pos hlt, if_pos hi, ← hi, he]
        rfl
      · rw [if_neg hi, if_neg hi]

variable {P : Particle α → Bool} {s : Store α} {places : List Nat}

theorem gravityAtOnce_map (h : s.Lists P places) (f : Particle α → Particle α)
    (k : Particle α → α) :
    gravityAtOnce (s.map f) places (places.map fun i => k (s.particle i)) = s.map fun p =>
      if P p then withVel (f p) ((f p).vel + (f p).gravAccel.scale (k p)) else f p := by
  rw [gravityAtOnce, h.gather_map, List.zipWith_map, List.zipWith_self]
  exact h.scatter_map f (fun v p => withVel p v) fun p => (f p).vel + (f p).gravAccel.scale (k p)

theorem gravityInTurn_map (h : s.Lists P places) (f : Particle α → Particle α)
    (k : Particle α → α) :
    gravityInTurn (s.map f) places (places.map fun i => k (s.particle i)) = s.map fun p =>
      if P p then withVel (f p) ((f p).vel + (f p).gravAccel.scale (k p)) else f p :=
  h.scatter_map f (fun k p => withVel p (p.vel + p.gravAccel.scale k)) k

theorem gasAtOnce_map (h : s.Lists P places) (l : GasLimits α) (f : Particle α → Particle α)
    (k : Particle α → GasKick α) :
    (gasAtOnce l (s.map f) places (places.map fun i => k (s.particle i))).1 = s.map fun p =>
      if P p then withGas (gasState l (k p) (f p)) (f p) else f p := by
  rw [← h.scatter_map f withGas fun p => gasState l (k p) (f p)]
  simp only [gasAtOnce, h.gather_map, velColumn, energyColumn, belowColumn, List.zipWith_map,
    List.zipWith_self, List.map_map, List.zip_eq_zipWith]
  rfl

theorem gasInTurn_map (h : s.Lists P places) (l : GasLimits α) (f : Particle α → Particle α)
    (k : Particle α → GasKick α) :
    (gasInTurn l (s.map f) places (places.map fun i => k (s.particle i))).1 = s.map fun p =>
      if P p then (gasOne l (k p) (f p)).1 else f p := by
  rw [gasInTurn_fst]
  exact h.scatter_map f (fun k p => (gasOne l k p).1) k

theorem exists_gasOne (l : GasLimits α) (k : GasKick α) (p : Particle α) :
    ∃ g, (gasOne l k p).1 = withGas g p := by
  refine ⟨⟨(gasOne l k p).1.vel, (gasOne l k p).1.energy, (gasOne l k p).1.energyRate⟩, ?_⟩
  simp only [gasOne, withGas]
  split <;> split <;> split <;> split <;> rfl

end Kick

namespace Kicker

variable (r : Kicker α) (t : TimeFactors α)

/-- The weights of a gas particle's kick over a stretch. -/
def gasWeight (start stop : Int) (p : Particle α) : GasKick α where
  factor := r.source.factor start stop .hydro
  length := r.source.length (stop - start) (start.fdiv r.timebase)
  next := 0.5 * r.source.length (TickCount.cadence p.bin) (stop.fdiv r.timebase)

def gasKickOne (start stop : Int) (p : Particle α) : Particle α :=
  let l := Kick.limits r.gas t
  let k := r.gasWeight start stop p
  if r.inTurn then (Kick.gasOne l k p).1 else Kick.withGas (Kick.gasState l k p) p

def gravityKickOne (start stop : Int) (p : Particle α) : Particle α :=
  Kick.withVel p (p.vel + p.gravAccel.scale (r.source.factor start stop .gravity))

def kickOne (start stop : Int) (p : Particle α) : Particle α :=
  let q := r.gravityKickOne start stop p
  if p.isGas then r.gasKickOne t start stop q else q

/-- A particle with its kick noted, if kicks are checked. -/
def note (stop : Int) (p : Particle α) : Particle α :=
  if r.isChecked then { p with kickTick := stop } else p

theorem exists_kickOne (start stop : Int) (p : Particle α) :
    ∃ g, r.kickOne t start stop p = Kick.withGas g p := by
  simp only [kickOne, gasKickOne]
  split
  · split
    · obtain ⟨g, hg⟩ := Kick.exists_gasOne (Kick.limits r.gas t)
        (r.gasWeight start stop (r.gravityKickOne start stop p)) (r.gravityKickOne start stop p)
      exact ⟨g, hg⟩
    · exact ⟨_, rfl⟩
  · exact ⟨⟨_, p.energy, p.energyRate⟩, rfl⟩

@[simp] theorem slot_kickOne (start stop : Int) (p : Particle α) :
    (r.kickOne t start stop p).slot = p.slot := by
  obtain ⟨g, hg⟩ := r.exists_kickOne t start stop p
  rw [hg]
  rfl

omit [Scalar α] in
@[simp] theorem slot_note (stop : Int) (p : Particle α) : (r.note stop p).slot = p.slot := by
  rw [note]
  split <;> rfl

variable {P : Particle α → Bool} {s : Store α} {places : List Nat} {r t}

def stretches (s : Store α) (places : List Nat) (start stop : Particle α → Int) : List Stretch :=
  places.map fun i => ⟨i, start (s.particle i), stop (s.particle i)⟩

theorem map_place_stretches (s : Store α) (places : List Nat) (start stop : Particle α → Int) :
    (stretches s places start stop).map (·.place) = places := by
  rw [stretches, List.map_map]
  exact List.map_id places

theorem filter_stretches (h : s.Lists P places) (f : Particle α → Particle α)
    (start stop : Particle α → Int) :
    (stretches s places start stop).filter (fun k => (particle (s.map f) k).isGas) =
      stretches s (places.filter fun i => (f (s.particle i)).isGas) start stop := by
  rw [stretches, stretches, List.filter_map]
  congr 1
  apply List.filter_congr
  intro i hi
  exact congrArg Particle.isGas (h.particle_map f hi)

theorem gasKick_stretches (h : s.Lists P places) (f : Particle α → Particle α)
    (start stop : Particle α → Int) :
    (stretches s places start stop).map (r.gasKick (s.map f)) = places.map fun i =>
      r.gasWeight (start (s.particle i)) (stop (s.particle i)) (f (s.particle i)) := by
  rw [stretches, List.map_map]
  apply List.map_congr_left
  intro i hi
  have hp : particle (s.map f) ⟨i, start (s.particle i), stop (s.particle i)⟩ = f (s.particle i) :=
    h.particle_map f hi
  rw [Function.comp_apply, gasWeight, ← hp]
  rfl

theorem gravity_map (h : s.Lists P places) (f : Particle α → Particle α)
    (start stop : Particle α → Int) :
    (if r.inTurn then Kick.gravityInTurn (s.map f) places ((stretches s places start stop).map
        fun k => r.source.factor k.start k.stop .gravity)
      else Kick.gravityAtOnce (s.map f) places ((stretches s places start stop).map
        fun k => r.source.factor k.start k.stop .gravity)) =
      s.map fun p => if P p then r.gravityKickOne (start p) (stop p) (f p) else f p := by
  rw [stretches, List.map_map]
  split
  · exact Kick.gravityInTurn_map h f fun p => r.source.factor (start p) (stop p) .gravity
  · exact Kick.gravityAtOnce_map h f fun p => r.source.factor (start p) (stop p) .gravity

theorem kicked_map (h : s.Lists P places) (f : Particle α → Particle α)
    (start stop : Particle α → Int) :
    (r.kicked t (s.map f) (stretches s places start stop)).1 = s.map fun p =>
      if P p then r.kickOne t (start p) (stop p) (f p) else f p := by
  have hg := h.filter fun p => (f p).isGas
  have hgravity := gravity_map (r := r) h f start stop
  simp only [kicked, filter_stretches h, map_place_stretches, gasKick_stretches hg]
  generalize hq : (fun p => if P p then r.gravityKickOne (start p) (stop p) (f p) else f p) = q
    at hgravity
  have hweight (p : Particle α) : r.gasWeight (start p) (stop p) (f p) =
      r.gasWeight (start p) (stop p) (q p) := by
    rw [← hq]
    by_cases hP : P p
    · simp only [if_pos hP]
      rfl
    · simp only [if_neg hP]
  have hlast :
      (fun p => if P p && (f p).isGas then r.gasKickOne t (start p) (stop p) (q p) else q p) =
      fun p => if P p then r.kickOne t (start p) (stop p) (f p) else f p := by
    funext p
    by_cases hP : P p
    · simp only [hP, Bool.true_and, if_true, kickOne, ← hq]
    · simp only [hP, Bool.false_and, Bool.false_eq_true, if_false, ← hq]
  rw [← hlast]
  cases hturn : r.inTurn with
  | true =>
    rw [hturn, if_pos rfl] at hgravity
    rw [if_pos rfl, hgravity]
    refine (Kick.gasInTurn_map hg _ q fun p => r.gasWeight (start p) (stop p) (f p)).trans ?_
    simp only [hweight, gasKickOne, hturn, if_true]
  | false =>
    rw [hturn] at hgravity
    rw [if_neg Bool.false_ne_true] at hgravity ⊢
    rw [hgravity]
    refine (Kick.gasAtOnce_map hg _ q fun p => r.gasWeight (start p) (stop p) (f p)).trans ?_
    simp only [hweight, gasKickOne, hturn, Bool.false_eq_true, if_false]

theorem noted_map (h : s.Lists P places) (f : Particle α → Particle α)
    (start stop : Particle α → Int) :
    noted (s.map f) (stretches s places start stop) =
      s.map fun p => if P p then { f p with kickTick := stop p } else f p := by
  rw [noted, stretches, List.map_map, List.map_map]
  refine Eq.trans ?_ (h.scatter_map f (fun t p => { p with kickTick := t }) stop)
  congr 1
  exact List.map_id places

theorem gap?_map (h : s.Lists P places) (f : Particle α → Particle α)
    (start stop : Particle α → Int) :
    gap? (s.map f) (stretches s places start stop) = none ↔
      ∀ p ∈ s, P p → (f p).kickTick = start p := by
  rw [gap?, Option.map_eq_none_iff, List.find?_eq_none, stretches]
  constructor
  · intro hn p hp hP
    obtain ⟨i, hi, rfl⟩ := h.exists_place hp hP
    have hk := hn _ (List.mem_map_of_mem hi)
    rw [bne_iff_ne, Decidable.not_not] at hk
    rw [← h.particle_map f hi]
    exact hk
  · intro hp k hk
    obtain ⟨i, hi, rfl⟩ := List.mem_map.1 hk
    rw [bne_iff_ne, Decidable.not_not]
    refine Eq.trans ?_ (hp _ (h.particle_mem hi) (h.getElem?_of_mem hi).2)
    exact congrArg Particle.kickTick (h.particle_map f hi)

/-- Notes where kicks end, if they are checked and leave no gap. -/
def noteAll (r : Kicker α) (ks : List Stretch) : Act α (Store α) Unit :=
  if r.isChecked then do
    match gap? (← Act.get) ks with
    | some e => Act.fail e
    | none => Act.modify fun s => noted s ks
  else pure ()

def kickAll (r : Kicker α) (t : TimeFactors α) (ks : List Stretch) : Act α (Store α) Unit := do
  let s ← Act.get
  Act.set (r.kicked t s ks).1
  Act.tell (.kicked ks.length (ks.countP fun k => (Kicker.particle s k).isGas) (r.kicked t s ks).2
    r.inTurn)

theorem shortRange_eq {ks : List Stretch} (h : ks ≠ []) :
    r.shortRange t ks = (do r.noteAll ks; r.kickAll t ks) := by
  have he : ¬ ks.isEmpty := by rwa [List.isEmpty_iff]
  rw [shortRange, if_neg he, noteAll]
  by_cases hc : r.isChecked
  · rw [if_pos hc, if_pos hc, bind_assoc]
    congr 1
    funext s
    cases gap? s ks <;> rfl
  · rw [if_neg hc, if_neg hc, pure_bind]
    rfl

def Continues (r : Kicker α) (P : Particle α → Bool) (f : Particle α → Particle α)
    (start : Particle α → Int) (s : Store α) : Prop :=
  r.isChecked → ∀ p ∈ s, P p → (f p).kickTick = start p

theorem ends_noteAll (h : s.Lists P places) (f : Particle α → Particle α)
    (start stop : Particle α → Int) :
    (r.noteAll (stretches s places start stop)).Ends
      (fun e => e.isGap ∧ ¬ r.Continues P f start s) (s.map f)
      fun _ s' => r.Continues P f start s ∧
        s' = s.map fun p => if P p then r.note (stop p) (f p) else f p := by
  rw [noteAll]
  by_cases hc : r.isChecked
  · have hnote : (fun p => if P p then r.note (stop p) (f p) else f p) =
        fun p => if P p then { f p with kickTick := stop p } else f p := by
      simp only [note, if_pos hc]
    rw [if_pos hc, Act.ends_bind, Act.ends_get, hnote]
    cases hg : gap? (s.map f) (stretches s places start stop) with
    | none => exact Act.ends_modify.2 ⟨fun _ => (gap?_map h f start stop).1 hg,
        noted_map h f start stop⟩
    | some e =>
      refine Act.ends_fail.2 ⟨?_, fun hn => ?_⟩
      · rw [gap?, Option.map_eq_some_iff] at hg
        obtain ⟨k, -, rfl⟩ := hg
        rfl
      · rw [(gap?_map h f start stop).2 (hn hc)] at hg
        cases hg
  · have hnote : (fun p => if P p then r.note (stop p) (f p) else f p) = f := by
      funext p
      simp only [note, if_neg hc, ite_self]
    rw [if_neg hc, hnote]
    exact Act.ends_pure.2 ⟨fun h => absurd h hc, rfl⟩

/-- A short-range kick is one change of all particles, and fails only where it leaves a gap. -/
theorem ends_shortRange (h : s.Lists P places) (f : Particle α → Particle α)
    (start stop : Particle α → Int) :
    (r.shortRange t (stretches s places start stop)).Ends
      (fun e => e.isGap ∧ ¬ r.Continues P f start s) (s.map f)
      fun _ s' => r.Continues P f start s ∧ s' = s.map fun p =>
        if P p then r.kickOne t (start p) (stop p) (r.note (stop p) (f p)) else f p := by
  by_cases hn : places = []
  · have hP := h.eq_nil_iff.1 hn
    have hs : stretches s places start stop = [] := by rw [hn]; rfl
    rw [hs]
    refine Act.ends_pure.2 ⟨fun _ p hp hPp => absurd hPp (hP p hp), ?_⟩
    apply Array.map_congr_left
    intro p hp
    rw [if_neg (hP p hp)]
  · have hs : stretches s places start stop ≠ [] := fun he => hn (List.map_eq_nil_iff.1 he)
    rw [shortRange_eq hs, Act.ends_bind]
    refine (ends_noteAll h f start stop).mono (fun _ s' hs' => ?_) fun _ he => he
    obtain ⟨hc, rfl⟩ := hs'
    rw [kickAll, Act.ends_bind, Act.ends_get, Act.ends_bind, Act.ends_set, Act.ends_tell,
      kicked_map h]
    refine ⟨hc, ?_⟩
    congr 1
    funext p
    by_cases hP : P p
    · simp only [if_pos hP]
    · simp only [if_neg hP]

theorem ends_longRange {E : Fault → Prop} (start stop : Int) (s : Store α) :
    (r.longRange start stop).Ends E s fun _ s' => s' = s.map fun p =>
      Kick.withVel p (p.vel + p.meshAccel.scale (r.source.factor start stop .gravity)) := by
  rw [longRange, Act.ends_bind, Act.ends_modify, Act.ends_tell]

/-- A particle kicked from the start of its step to the middle. -/
def openOne (r : Kicker α) (t : TimeFactors α) (p : Particle α) : Particle α :=
  r.kickOne t p.stepStart p.midpoint (r.note p.midpoint p)

@[simp] theorem slot_openOne (p : Particle α) : (r.openOne t p).slot = p.slot := by
  rw [openOne, slot_kickOne, slot_note]

theorem openings_map (h : s.Lists P places) (f : Particle α → Particle α) :
    openings (s.map f) places =
      stretches s places (fun p => (f p).stepStart) fun p => (f p).midpoint := by
  rw [openings, h.gather_map, stretches, List.zip_map_right, List.zip_eq_zipWith, List.zipWith_self,
    List.map_map, List.map_map]
  rfl

theorem ends_half (h : s.Lists P places) (f : Particle α → Particle α) (m : MeshStep) :
    (r.half t places m).Ends (fun e => e.isGap ∧ ¬ r.Continues P f (fun p => (f p).stepStart) s)
      (s.map f) fun _ s' =>
        s' = (s.map fun p => if P p then r.openOne t (f p) else f p).map fun p => Kick.withVel p
          (p.vel + p.meshAccel.scale (r.source.factor m.start m.kickTick .gravity)) := by
  rw [half, Act.ends_bind, Act.ends_get, openings_map h, Act.ends_bind]
  apply (ends_shortRange h f _ _).mono ?_ fun _ he => he
  rintro _ s' ⟨-, rfl⟩
  exact ends_longRange m.start m.kickTick _

end Kicker

end BlockStep
