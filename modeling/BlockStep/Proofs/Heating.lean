import BlockStep.Proofs.Epochs
import BlockStep.Proofs.GasBounds

namespace BlockStep

namespace KickTable

variable {α : Type} [ExactScalar α]

theorem factor_add (k : KickTable α) (t : Timeline α) (a b c : Int) (kind : KickKind) :
    k.factor t a b kind + k.factor t b c kind = k.factor t a c kind := by
  rw [factor, factor, factor]
  ring

end KickTable

namespace Kicker

section Parts

variable {α : Type} [Scalar α] {r : Kicker α} {t : TimeFactors α} {k : Stretch} {p : Particle α}

structure IsFree (r : Kicker α) (t : TimeFactors α) (k : Stretch) (p : Particle α) : Prop where
  slow : ¬ (Kick.limits r.gas t).speed < (r.pushedOne k p).norm
  warm : ¬ p.energyRate * (r.gasWeight k.start k.stop p).length < -0.5 * p.energy
  above : ¬ Kick.IsHeld (Kick.limits r.gas t) (r.gasWeight k.start k.stop p) p
  slack : ¬ ((0.0 : α) < (r.gasWeight k.start k.stop p).next ∧
    p.energyRate * (r.gasWeight k.start k.stop p).next <
      -0.5 * Kick.heated (r.gasWeight k.start k.stop p) p)

theorem IsFree.gasOf_eq (h : r.IsFree t k p) : r.gasOf t k p = ⟨r.pushedOne k p,
    p.energy + p.energyRate * (r.gasWeight k.start k.stop p).length, p.energyRate⟩ := by
  have hvel : (r.gasOf t k p).vel = r.pushedOne k p := if_neg h.slow
  obtain ⟨henergy, hrate⟩ := Kick.gasState_of_not_held
      (p := r.gravityKickOne k.start k.stop p) h.above
  have hslack : (r.gasOf t k p).rate = p.energyRate := hrate.trans (if_neg h.slack)
  have hheated : (r.gasOf t k p).energy = _ := henergy.trans (if_neg h.warm)
  cases hg : r.gasOf t k p with
  | mk v u w =>
    rw [hg] at hvel hslack hheated
    rw [Kick.GasState.mk.injEq]
    exact ⟨hvel, hheated, hslack⟩

end Parts

variable {α : Type} [ExactScalar α] {r : Kicker α} {f f₁ f₂ : TimeFactors α} {k : Stretch}
  {p : Particle α} {t : Timeline α} {table : KickTable α}

theorem listedOne_of_isFree (h : r.IsFree f k p) (hp : p.isGas) :
    r.listedOne f k p = { p with
      vel := r.pushedOne k p
      energy := p.energy + p.energyRate * (r.gasWeight k.start k.stop p).length
      kickTick := if r.isChecked then k.stop else p.kickTick } := by
  rw [listedOne_of_isGas r f k hp, h.gasOf_eq, note_eq]
  rfl

theorem listedOne_of_not_isGas (r : Kicker α) (f : TimeFactors α) (k : Stretch)
    (hp : p.isGas = false) : r.listedOne f k p = { p with
      vel := p.vel + p.gravAccel.scale (r.source.factor k.start k.stop .gravity)
      kickTick := if r.isChecked then k.stop else p.kickTick } := by
  rw [listedOne, note_eq]
  exact r.kickOne_of_not_isGas f k.start k.stop hp

/-- Kicks are made with a table over the clock of the run. -/
structure UsesTable (r : Kicker α) (table : KickTable α) (t : Timeline α) : Prop where
  source : r.source = table.source t
  timebase : r.timebase = t.timebase

namespace UsesTable

theorem scale_add (h : r.UsesTable table t) (v : Vec3 α) (a b c : Int) (kind : KickKind) :
    v.scale (r.source.factor a b kind) + v.scale (r.source.factor b c kind) =
      v.scale (r.source.factor a c kind) := by
  rw [← Vec3.scale_add, h.source]
  congr 1
  exact table.factor_add t a b c kind

theorem length_eq (h : r.UsesTable table t) (start stop : Int) (p : Particle α) :
    (r.gasWeight start stop p).length =
      ((stop - start : Int) : α) * t.interval (start.fdiv t.timebase) := by
  rw [gasWeight, h.source, h.timebase]
  simp only [KickTable.source, Timeline.length, ExactScalar.ofInt_eq]

end UsesTable

/-- A stretch of a particle and a tick that may cut it in two. -/
structure Cut where
  place : Nat
  start : Int
  cut : Int
  stop : Int

namespace Cut

def whole (c : Cut) : Stretch := ⟨c.place, c.start, c.stop⟩

def former (c : Cut) : Stretch := ⟨c.place, c.start, c.cut⟩

def latter (c : Cut) : Stretch := ⟨c.place, c.cut, c.stop⟩

/-- The ticks lie in order within a run. -/
structure Within (c : Cut) (t : Timeline α) : Prop where
  nonneg : 0 ≤ c.start
  start_le : c.start ≤ c.cut
  le_stop : c.cut ≤ c.stop
  le_end : c.stop ≤ t.endTick

end Cut

theorem UsesTable.pushedOne_latter (h : r.UsesTable table t) (c : Cut) {q : Particle α}
    (hv : q.vel = r.pushedOne c.former p) (hg : q.gravAccel = p.gravAccel)
    (hh : q.hydroAccel = p.hydroAccel) : r.pushedOne c.latter q = r.pushedOne c.whole p := by
  have hgravity := h.scale_add p.gravAccel c.start c.cut c.stop .gravity
  have hhydro := h.scale_add p.hydroAccel c.start c.cut c.stop .hydro
  rw [pushedOne_eq, hv, hg, hh, pushedOne_eq, pushedOne_eq]
  simp only [Cut.whole, Cut.former, Cut.latter]
  rw [← hgravity, ← hhydro]
  abel

structure Heats (t : Timeline α) (c : Cut) (p whole halves : Particle α) : Prop where
  energy : whole.energy =
    p.energy + p.energyRate *
      (((c.stop - c.start : Int) : α) * t.interval (c.start.fdiv t.timebase))
  energy_eq_iff : halves.energy = whole.energy ↔ p.energyRate = 0 ∨ c.cut = c.stop ∨
    t.interval (c.cut.fdiv t.timebase) = t.interval (c.start.fdiv t.timebase)
  inside : c.stop ≤ (c.start.fdiv t.timebase + 1) * t.timebase → halves.energy = whole.energy ∧
    whole.energy = p.energy + p.energyRate * (t.logA c.stop - t.logA c.start)
  /-- Behind the end of its first epoch a kick heats by the ticks of that epoch. -/
  crossing : ∀ b, b = (c.start.fdiv t.timebase + 1) * t.timebase → b ≤ c.stop →
    c.stop ≤ b + t.timebase →
    whole.energy = p.energy + p.energyRate * (t.logA c.stop - t.logA c.start -
      ((c.stop - b : Int) : α) *
        (t.interval (c.start.fdiv t.timebase + 1) - t.interval (c.start.fdiv t.timebase)))

/-- What one kick over a stretch makes of a particle, and what two kicks make of it. -/
structure Compares (t : Timeline α) (c : Cut) (p whole halves : Particle α) : Prop where
  vel : halves.vel = whole.vel
  other : p.isGas = false → whole.energy = p.energy ∧ halves.energy = p.energy
  gas : p.isGas → Heats t c p whole halves

structure IsFreeCut (r : Kicker α) (f f₁ f₂ : TimeFactors α) (c : Cut) (p : Particle α) : Prop where
  whole : r.IsFree f c.whole p
  former : r.IsFree f₁ c.former p
  latter : r.IsFree f₂ c.latter (r.listedOne f₁ c.former p)

theorem compares_of_not_isGas (h : r.UsesTable table t) (c : Cut) (hp : p.isGas = false) :
    Compares t c p (r.listedOne f c.whole p)
      (r.listedOne f₂ c.latter (r.listedOne f₁ c.former p)) := by
  have hwhole := listedOne_of_not_isGas r f c.whole hp
  have hformer := listedOne_of_not_isGas r f₁ c.former hp
  have hgas : (r.listedOne f₁ c.former p).isGas = false := by
    rw [hformer]
    exact hp
  have hlatter := listedOne_of_not_isGas r f₂ c.latter hgas
  rw [hlatter, hformer, hwhole]
  constructor
  case vel =>
    change p.vel + _ + _ = p.vel + _
    rw [add_assoc]
    exact congrArg (p.vel + ·) (h.scale_add p.gravAccel c.start c.cut c.stop .gravity)
  case other => exact fun _ => ⟨rfl, rfl⟩
  case gas => exact fun hgas => absurd hgas (Bool.eq_false_iff.1 hp)

/-- The heat of two kicks, of which each goes by the ticks of the epoch in which it starts. -/
theorem heats_of_energy (ht : t.IsClock) {c : Cut} (hc : c.Within t) {whole halves : Particle α}
    (hwhole : whole.energy = p.energy + p.energyRate *
      (((c.stop - c.start : Int) : α) * t.interval (c.start.fdiv t.timebase)))
    (hhalves : halves.energy = p.energy + p.energyRate *
        (((c.cut - c.start : Int) : α) * t.interval (c.start.fdiv t.timebase)) +
      p.energyRate * (((c.stop - c.cut : Int) : α) * t.interval (c.cut.fdiv t.timebase))) :
    Heats t c p whole halves := by
  -- up to the cut both go by the same ticks, so they differ by the latter part alone
  have hiff : halves.energy = whole.energy ↔ p.energyRate = 0 ∨ c.cut = c.stop ∨
      t.interval (c.cut.fdiv t.timebase) = t.interval (c.start.fdiv t.timebase) := by
    have hdiff : halves.energy - whole.energy = p.energyRate * (((c.stop - c.cut : Int) : α) *
        (t.interval (c.cut.fdiv t.timebase) - t.interval (c.start.fdiv t.timebase))) := by
      rw [hwhole, hhalves]
      push_cast
      ring
    rw [← sub_eq_zero, hdiff, mul_eq_zero, mul_eq_zero, Int.cast_eq_zero, sub_eq_zero, sub_eq_zero,
      eq_comm (a := c.stop)]
  constructor
  case energy => exact hwhole
  case energy_eq_iff => exact hiff
  case inside =>
    intro hstop
    have hsub := ht.logA_sub hc.nonneg (hc.start_le.trans hc.le_stop) hc.le_end hstop
    constructor
    · rw [hiff]
      rcases hc.le_stop.eq_or_lt with heq | hlt
      · exact .inr (.inl heq)
      · have hcut := Timeline.fdiv_eq ht.timebase_pos
          ((Timeline.fdiv_mul_le ht.timebase_pos c.start).trans hc.start_le) (hlt.trans_le hstop)
        exact .inr (.inr (congrArg t.interval hcut))
    · rw [hwhole, hsub]
  case crossing =>
    intro b hb hle hstop
    have hlt : c.start < b := hb ▸ Timeline.lt_fdiv_mul ht.timebase_pos c.start
    have hepoch : b.fdiv t.timebase = c.start.fdiv t.timebase + 1 := by
      apply Timeline.fdiv_eq ht.timebase_pos hb.ge
      have htb := ht.timebase_pos
      rw [hb]
      linarith
    have hformer := ht.logA_sub hc.nonneg hlt.le (hle.trans hc.le_end) hb.le
    have hlatter := ht.logA_sub (hc.nonneg.trans hlt.le) hle hc.le_end (by
      rw [hepoch, add_one_mul (c.start.fdiv t.timebase + 1), ← hb]
      exact hstop)
    have hsum : t.logA c.stop - t.logA c.start =
        (t.logA c.stop - t.logA b) + (t.logA b - t.logA c.start) := by ring
    rw [hwhole, hsum, hformer, hlatter, hepoch]
    push_cast
    ring

theorem compares_of_isGas (h : r.UsesTable table t) (ht : t.IsClock) {c : Cut} (hc : c.Within t)
    (hp : p.isGas) (hfree : r.IsFreeCut f f₁ f₂ c p) :
    Compares t c p (r.listedOne f c.whole p)
      (r.listedOne f₂ c.latter (r.listedOne f₁ c.former p)) := by
  have hwhole := listedOne_of_isFree hfree.whole hp
  have hformer := listedOne_of_isFree hfree.former hp
  have hgas : (r.listedOne f₁ c.former p).isGas := by
    rw [hformer]
    exact hp
  have hlatter := listedOne_of_isFree hfree.latter hgas
  rw [h.length_eq] at hwhole hlatter
  constructor
  case vel =>
    rw [hlatter, hwhole]
    apply h.pushedOne_latter
    · rw [hformer]
    · rw [hformer]
    · rw [hformer]
  case other => exact fun hnot => absurd hp (Bool.eq_false_iff.1 hnot)
  case gas =>
    intro _
    rw [h.length_eq] at hformer
    apply heats_of_energy ht hc
    · rw [hwhole]
      rfl
    · rw [hlatter, hformer]
      rfl

/-- A kick over a stretch and two kicks over its parts, all of them without limits, give the same
velocities; they give the same energies if and only if the gas is not heated, a part is empty or the
epochs in which the parts start have ticks of one length. -/
theorem cut_kicks_compare {begin max : α} {outputs : List α} {timebase : Int} (htb : 0 < timebase)
    (ht : Timeline.make begin max outputs timebase = .ok t) (h : r.UsesTable table t) {s : Store α}
    {cs : List Cut} (hl : Lists s (cs.map Cut.whole)) (hcont : r.Continue s (cs.map Cut.whole))
    (hwithin : ∀ c ∈ cs, c.Within t)
    (hfree : ∀ c ∈ cs, (particle s c.whole).isGas → r.IsFreeCut f f₁ f₂ c (particle s c.whole)) :
    ∃ s₁ s₂, (r.shortRange f (cs.map Cut.whole)).Does s (.ok ()) s₁ ∧
      (do
        r.shortRange f₁ (cs.map Cut.former)
        r.shortRange f₂ (cs.map Cut.latter)).Does s (.ok ()) s₂ ∧
      ∀ c ∈ cs, ∃ whole halves, s₁[c.place]? = some whole ∧ s₂[c.place]? = some halves ∧
        Compares t c (particle s c.whole) whole halves := by
  have hclock := (Timeline.isClock_of_make ht htb).1
  have hplace (part : Cut → Stretch) (hpart : ∀ c, (part c).place = c.place) :
      (cs.map part).map (·.place) = (cs.map Cut.whole).map (·.place) := by
    rw [List.map_map, List.map_map]
    exact List.map_congr_left fun c _ => hpart c
  have hformer := hl.of_places (hplace Cut.former fun _ => rfl)
  have hlatter := hl.of_places (hplace Cut.latter fun _ => rfl)
  obtain ⟨s₁, hdoes₁, hkicks₁⟩ := hl.does_shortRange hcont f
  obtain ⟨s', hdoes', hkicks'⟩ := hformer.does_shortRange
    (fun hchecked => List.forall_mem_map.2 fun c hc =>
      hcont hchecked c.whole (List.mem_map_of_mem hc)) f₁
  have hparticle {c : Cut} (hc : c ∈ cs) :
      particle s' c.latter = r.listedOne f₁ c.former (particle s c.whole) :=
    particle_eq (hkicks'.listed _ (List.mem_map_of_mem hc))
  obtain ⟨s₂, hdoes₂, hkicks₂⟩ := (hlatter.of_kicks hkicks').does_shortRange
    (fun hchecked => List.forall_mem_map.2 fun c hc => by
      rw [hparticle hc, kickTick_listedOne f₁ _ _ hchecked]
      rfl) f₂
  refine ⟨s₁, s₂, hdoes₁, Act.does_bind_ok.2 ⟨(), s', hdoes', hdoes₂⟩, fun c hc => ?_⟩
  have hhalves := hkicks₂.listed _ (List.mem_map_of_mem hc)
  rw [hparticle hc] at hhalves
  refine ⟨_, _, hkicks₁.listed _ (List.mem_map_of_mem hc), hhalves, ?_⟩
  cases hgas : (particle s c.whole).isGas with
  | false => exact compares_of_not_isGas h c hgas
  | true => exact compares_of_isGas h hclock (hwithin c hc) hgas (hfree c hc hgas)

section Sample

def heatClock : Timeline Rat := .ofEdges ([1, 2, 4].map Scalar.log) 8

def heatTable : KickTable Rat := ⟨#[0, 3], #[0, 1], #[0, 2]⟩

def heatKicker : Kicker Rat := ⟨heatTable.source heatClock, 8, ⟨1000, 0⟩, true, false⟩

def heatFactors : TimeFactors Rat := ⟨1, 1, 1, 1⟩

def heatGas : Particle Rat :=
  { (default : Particle Rat) with
    kind := 0, vel := ⟨1, 0, 0⟩, gravAccel := ⟨0, 1, 0⟩, bin := 2, kickTick := 4, energy := 1,
    energyRate := 1
    eomDensity := 1 }

def heatCut : Cut := ⟨0, 4, 8, 12⟩

theorem cut_kicks_compare_sample : ∃ s₁ s₂ whole halves,
    (heatKicker.shortRange heatFactors [heatCut.whole]).Does #[heatGas] (.ok ()) s₁ ∧
      (do
        heatKicker.shortRange heatFactors [heatCut.former]
        heatKicker.shortRange heatFactors [heatCut.latter]).Does #[heatGas] (.ok ()) s₂ ∧
      s₁[0]? = some whole ∧ s₂[0]? = some halves ∧ halves.vel = whole.vel ∧ whole.energy = 2 ∧
        halves.energy ≠ whole.energy := by
  have hmake : Timeline.make (1 : Rat) 4 [2] 8 = .ok heatClock :=
    Timeline.make_eq [2] (by decide +kernel) (by decide +kernel) (by decide +kernel)
  have htable : heatKicker.UsesTable heatTable heatClock := ⟨rfl, rfl⟩
  have hlists : Lists #[heatGas] ([heatCut].map Cut.whole) := ⟨by decide, by decide⟩
  have hcont : heatKicker.Continue #[heatGas] ([heatCut].map Cut.whole) :=
    fun _ => by decide +kernel
  have hwithin : ∀ c ∈ [heatCut], c.Within heatClock :=
    List.forall_mem_singleton.2 ⟨by decide, by decide, by decide, by decide⟩
  have hwhole : heatKicker.IsFree heatFactors heatCut.whole heatGas :=
    ⟨by decide +kernel, by decide +kernel, by decide +kernel, by decide +kernel⟩
  have hformer : heatKicker.IsFree heatFactors heatCut.former heatGas :=
    ⟨by decide +kernel, by decide +kernel, by decide +kernel, by decide +kernel⟩
  have hlatter : heatKicker.IsFree heatFactors heatCut.latter
      (heatKicker.listedOne heatFactors heatCut.former heatGas) :=
    ⟨by decide +kernel, by decide +kernel, by decide +kernel, by decide +kernel⟩
  have hfree : ∀ c ∈ [heatCut], (particle #[heatGas] c.whole).isGas →
      heatKicker.IsFreeCut heatFactors heatFactors heatFactors c (particle #[heatGas] c.whole) :=
    List.forall_mem_singleton.2 fun _ => ⟨hwhole, hformer, hlatter⟩
  obtain ⟨s₁, s₂, hdoes₁, hdoes₂, hall⟩ :=
    cut_kicks_compare (by decide) hmake htable hlists hcont hwithin hfree
  obtain ⟨whole, halves, hs₁, hs₂, hcompares⟩ := hall heatCut List.mem_cons_self
  have hheats := hcompares.gas rfl
  refine ⟨s₁, s₂, whole, halves, hdoes₁, hdoes₂, hs₁, hs₂, hcompares.vel, ?_, ?_⟩
  · rw [hheats.energy]
    decide +kernel
  · rw [Ne, hheats.energy_eq_iff]
    decide +kernel

end Sample

end Kicker

end BlockStep
