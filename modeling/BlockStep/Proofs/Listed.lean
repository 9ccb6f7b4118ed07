import BlockStep.Proofs.Impulse
import Mathlib.Data.List.Nodup

namespace BlockStep

variable {α β : Type} [Scalar α]

section Scatter

variable {s : Store α} {ks : List Stretch} {k : Stretch} {p : Particle α}

omit [Scalar α] in
theorem Store.getElem?_scatter_entry {ι : Type} (s : Store α) (change : β → Particle α → Particle α)
    {es : List ι} {place : ι → Nat} (v : ι → β) (hn : (es.map place).Nodup) {e : ι} (he : e ∈ es) :
    (s.scatter change (es.map place) (es.map v))[place e]? = s[place e]?.map (change (v e)) := by
  have hz : (place e, v e) ∈ (es.map place).zip (es.map v) := by
    rw [List.zip_map']
    exact List.mem_map.2 ⟨e, he, rfl⟩
  exact getElem?_scatter_of_mem s change hn hz

omit [Scalar α] in
theorem Store.getElem?_scatter_listed (change : β → Particle α → Particle α) (v : Stretch → β)
    (hn : (ks.map (·.place)).Nodup) (hk : k ∈ ks) (hp : s[k.place]? = some p) :
    (s.scatter change (ks.map (·.place)) (ks.map v))[k.place]? = some (change (v k) p) := by
  rw [getElem?_scatter_entry s change v hn hk, hp]
  rfl

theorem Kicker.particle_eq (hp : s[k.place]? = some p) : Kicker.particle s k = p := by
  rw [Kicker.particle, hp, Option.getD_some]

theorem Store.gather_listed (s : Store α) (ks : List Stretch) :
    s.gather (ks.map (·.place)) = ks.map (Kicker.particle s) := by
  rw [Store.gather, List.map_map]
  rfl

end Scatter

namespace Kick

variable {s : Store α} {ks : List Stretch} {k : Stretch} {p : Particle α}

theorem gravityAtOnce_listed (factor : Stretch → α) (hn : (ks.map (·.place)).Nodup) (hk : k ∈ ks)
    (hp : s[k.place]? = some p) :
    (gravityAtOnce s (ks.map (·.place)) (ks.map factor))[k.place]? =
      some (withVel p (p.vel + p.gravAccel.scale (factor k))) := by
  rw [gravityAtOnce, Store.gather_listed, List.zipWith_map, List.zipWith_self,
    Store.getElem?_scatter_listed _ _ hn hk hp, Kicker.particle_eq hp]

theorem gravityInTurn_listed (factor : Stretch → α) (hn : (ks.map (·.place)).Nodup) (hk : k ∈ ks)
    (hp : s[k.place]? = some p) :
    (gravityInTurn s (ks.map (·.place)) (ks.map factor))[k.place]? =
      some (withVel p (p.vel + p.gravAccel.scale (factor k))) :=
  Store.getElem?_scatter_listed (fun c p => withVel p (p.vel + p.gravAccel.scale c)) factor hn hk hp

theorem gasAtOnce_eq (l : GasLimits α) (s : Store α) (ks : List Stretch)
    (weight : Stretch → GasKick α) :
    (gasAtOnce l s (ks.map (·.place)) (ks.map weight)).1 = s.scatter withGas (ks.map (·.place))
      (ks.map fun k => gasState l (weight k) (Kicker.particle s k)) := by
  simp only [gasAtOnce, Store.gather_listed, velColumn, energyColumn, belowColumn, List.zipWith_map,
    List.zipWith_self, List.map_map, List.zip_eq_zipWith]
  rfl

theorem gasAtOnce_listed (l : GasLimits α) (weight : Stretch → GasKick α)
    (hn : (ks.map (·.place)).Nodup) (hk : k ∈ ks) (hp : s[k.place]? = some p) :
    (gasAtOnce l s (ks.map (·.place)) (ks.map weight)).1[k.place]? =
      some (withGas (gasState l (weight k) p) p) := by
  rw [gasAtOnce_eq, Store.getElem?_scatter_listed _ _ hn hk hp, Kicker.particle_eq hp]

theorem gasInTurn_listed (l : GasLimits α) (weight : Stretch → GasKick α)
    (hn : (ks.map (·.place)).Nodup) (hk : k ∈ ks) (hp : s[k.place]? = some p) :
    (gasInTurn l s (ks.map (·.place)) (ks.map weight)).1[k.place]? =
      some (gasOne l (weight k) p).1 := by
  rw [gasInTurn_fst, Store.getElem?_scatter_listed _ _ hn hk hp]

end Kick

namespace Kicker

variable {r : Kicker α} {t : TimeFactors α} {s : Store α} {ks : List Stretch} {k : Stretch}
  {p : Particle α}

def gravityPart (r : Kicker α) (s : Store α) (ks : List Stretch) : Store α :=
  let places := ks.map (·.place)
  let factors := ks.map fun k => r.source.factor k.start k.stop .gravity
  if r.inTurn then Kick.gravityInTurn s places factors else Kick.gravityAtOnce s places factors

def gasPart (r : Kicker α) (t : TimeFactors α) (s s' : Store α) (gas : List Stretch) : Store α :=
  let limits := Kick.limits r.gas t
  if r.inTurn then (Kick.gasInTurn limits s' (gas.map (·.place)) (gas.map (r.gasKick s))).1
  else (Kick.gasAtOnce limits s' (gas.map (·.place)) (gas.map (r.gasKick s))).1

theorem kicked_fst (r : Kicker α) (t : TimeFactors α) (s : Store α) (ks : List Stretch) :
    (r.kicked t s ks).1 =
      r.gasPart t s (r.gravityPart s ks) (ks.filter fun k => (particle s k).isGas) := by
  simp only [kicked, gasPart, gravityPart]
  split <;> rfl

theorem gravityPart_listed (hn : (ks.map (·.place)).Nodup) (hk : k ∈ ks)
    (hp : s[k.place]? = some p) :
    (r.gravityPart s ks)[k.place]? = some (r.gravityKickOne k.start k.stop p) := by
  rw [gravityPart]
  split
  · exact Kick.gravityInTurn_listed (fun k => r.source.factor k.start k.stop .gravity) hn hk hp
  · exact Kick.gravityAtOnce_listed (fun k => r.source.factor k.start k.stop .gravity) hn hk hp

theorem gravityPart_unlisted (s : Store α) {i : Nat} (hi : i ∉ ks.map (·.place)) :
    (r.gravityPart s ks)[i]? = s[i]? := by
  rw [gravityPart]
  split
  · exact Store.getElem?_scatter_of_not_mem s
      (fun c p => Kick.withVel p (p.vel + p.gravAccel.scale c)) _ hi
  · exact Store.getElem?_scatter_of_not_mem s _ _ hi

theorem gasPart_listed {s' : Store α} {q : Particle α} (hn : (ks.map (·.place)).Nodup) (hk : k ∈ ks)
    (hq : s'[k.place]? = some q) (hbin : (particle s k).bin = q.bin) :
    (r.gasPart t s s' ks)[k.place]? = some (r.gasKickOne t k.start k.stop q) := by
  have hweight : r.gasKick s k = r.gasWeight k.start k.stop q := by
    rw [gasKick, gasWeight, hbin]
  rw [gasPart, gasKickOne]
  split
  · rw [Kick.gasInTurn_listed _ _ hn hk hq, hweight]
  · rw [Kick.gasAtOnce_listed _ _ hn hk hq, hweight]

theorem gasPart_unlisted (s s' : Store α) {i : Nat} (hi : i ∉ ks.map (·.place)) :
    (r.gasPart t s s' ks)[i]? = s'[i]? := by
  rw [gasPart]
  split
  · rw [Kick.gasInTurn_fst]
    exact Store.getElem?_scatter_of_not_mem s' _ _ hi
  · exact Store.getElem?_scatter_of_not_mem s' _ _ hi

theorem kicked_listed (hn : (ks.map (·.place)).Nodup) (hk : k ∈ ks) (hp : s[k.place]? = some p) :
    (r.kicked t s ks).1[k.place]? = some (r.kickOne t k.start k.stop p) := by
  have hgravity := gravityPart_listed (r := r) hn hk hp
  have hsub : ((ks.filter fun k => (particle s k).isGas).map (·.place)).Sublist
      (ks.map (·.place)) :=
    List.Sublist.map _ List.filter_sublist
  rw [kicked_fst, kickOne]
  by_cases hgas : p.isGas
  · have hmem : k ∈ ks.filter fun k => (particle s k).isGas := by
      rw [List.mem_filter, particle_eq hp]
      exact ⟨hk, hgas⟩
    rw [if_pos hgas]
    exact gasPart_listed (hn.sublist hsub) hmem hgravity (by rw [particle_eq hp]; rfl)
  · -- no gas is listed under its place, since each place is listed once
    have hnot : k.place ∉ (ks.filter fun k => (particle s k).isGas).map (·.place) := by
      intro hmem
      obtain ⟨k', hk', hplace⟩ := List.mem_map.1 hmem
      obtain ⟨hk', hgas'⟩ := List.mem_filter.1 hk'
      obtain rfl : k' = k := List.inj_on_of_nodup_map hn hk' hk hplace
      rw [particle_eq hp] at hgas'
      exact hgas hgas'
    rw [if_neg hgas, gasPart_unlisted s _ hnot]
    exact hgravity

theorem kicked_unlisted (s : Store α) {i : Nat} (hi : i ∉ ks.map (·.place)) :
    (r.kicked t s ks).1[i]? = s[i]? := by
  have hnot : i ∉ (ks.filter fun k => (particle s k).isGas).map (·.place) :=
    fun hmem => hi ((List.Sublist.map _ List.filter_sublist).subset hmem)
  rw [kicked_fst, gasPart_unlisted s _ hnot, gravityPart_unlisted s hi]

/-- Where kicks are checked, those listed start where the last ones of their particles ended. -/
def Continue (r : Kicker α) (s : Store α) (ks : List Stretch) : Prop :=
  r.isChecked → ∀ k ∈ ks, (particle s k).kickTick = k.start

theorem gap?_eq_none_iff (s : Store α) (ks : List Stretch) :
    gap? s ks = none ↔ ∀ k ∈ ks, (particle s k).kickTick = k.start := by
  rw [gap?, Option.map_eq_none_iff, List.find?_eq_none]
  simp only [bne_iff_ne, Decidable.not_not]

/-- Stretches of particles of the store, each listed once. -/
structure Lists (s : Store α) (ks : List Stretch) : Prop where
  nodup : (ks.map (·.place)).Nodup
  lt_size : ∀ k ∈ ks, k.place < s.size

/-- A listed particle with its kick noted and made. -/
def listedOne (r : Kicker α) (t : TimeFactors α) (k : Stretch) (p : Particle α) : Particle α :=
  r.kickOne t k.start k.stop (r.note k.stop p)

theorem kickTick_listedOne (t : TimeFactors α) (k : Stretch) (p : Particle α) (h : r.isChecked) :
    (r.listedOne t k p).kickTick = k.stop := by
  obtain ⟨g, hg⟩ := r.exists_kickOne t k.start k.stop (r.note k.stop p)
  rw [listedOne, hg, note, if_pos h]
  rfl

/-- Listed particles changed each by itself, and no others. -/
structure Kicks (r : Kicker α) (t : TimeFactors α) (ks : List Stretch) (s s' : Store α) : Prop where
  listed : ∀ k ∈ ks, s'[k.place]? = some (r.listedOne t k (particle s k))
  unlisted : ∀ i, i ∉ ks.map (·.place) → s'[i]? = s[i]?

namespace Lists

theorem getElem? (h : Lists s ks) (hk : k ∈ ks) : s[k.place]? = some (particle s k) := by
  have hp := Array.getElem?_eq_getElem (h.lt_size k hk)
  rw [hp, particle_eq hp]

omit [Scalar α] in
theorem of_places {ks' : List Stretch} (h : Lists s ks)
    (hp : ks'.map (·.place) = ks.map (·.place)) : Lists s ks' where
  nodup := hp ▸ h.nodup
  lt_size k hk := by
    have hmem : k.place ∈ ks.map (·.place) := hp ▸ List.mem_map_of_mem hk
    obtain ⟨k', hk', hplace⟩ := List.mem_map.1 hmem
    exact hplace ▸ h.lt_size k' hk'

theorem ends_noteAll (h : Lists s ks) :
    (r.noteAll ks).Ends (fun e => e.isGap ∧ ¬ r.Continue s ks) s fun _ s' =>
      (∀ k ∈ ks, s'[k.place]? = some (r.note k.stop (particle s k))) ∧
        ∀ i, i ∉ ks.map (·.place) → s'[i]? = s[i]? := by
  rw [noteAll]
  by_cases hc : r.isChecked
  · rw [if_pos hc, Act.ends_bind, Act.ends_get]
    cases hg : gap? s ks with
    | none =>
      apply Act.ends_modify.2
      constructor
      · intro k hk
        rw [note, if_pos hc, noted, Store.getElem?_scatter_listed _ _ h.nodup hk (h.getElem? hk)]
      · intro i hi
        exact Store.getElem?_scatter_of_not_mem s _ _ hi
    | some e =>
      apply Act.ends_fail.2
      constructor
      · rw [gap?, Option.map_eq_some_iff] at hg
        obtain ⟨k, -, rfl⟩ := hg
        rfl
      · intro hcontinue
        rw [(gap?_eq_none_iff s ks).2 (hcontinue hc)] at hg
        cases hg
  · rw [if_neg hc]
    apply Act.ends_pure.2
    constructor
    · intro k hk
      rw [note, if_neg hc, h.getElem? hk]
    · intro i _
      rfl

/-- The kick changes each listed particle by itself, and fails only where it leaves a gap. -/
theorem ends_shortRange (h : Lists s ks) (r : Kicker α) (t : TimeFactors α) :
    (r.shortRange t ks).Ends (fun e => e.isGap ∧ ¬ r.Continue s ks) s fun _ s' =>
      r.Kicks t ks s s' := by
  by_cases hne : ks = []
  · rw [hne]
    exact Act.ends_pure.2 ⟨fun k hk => absurd hk List.not_mem_nil, fun _ _ => rfl⟩
  · rw [shortRange_eq hne, Act.ends_bind]
    apply (h.ends_noteAll (r := r)).mono _ fun _ he => he
    intro _ s₁ hs₁
    obtain ⟨hlisted, hunlisted⟩ := hs₁
    rw [kickAll, Act.ends_bind, Act.ends_get, Act.ends_bind, Act.ends_set, Act.ends_tell]
    constructor
    · intro k hk
      exact kicked_listed h.nodup hk (hlisted k hk)
    · intro i hi
      rw [kicked_unlisted s₁ hi, hunlisted i hi]

theorem does_shortRange (h : Lists s ks) (hc : r.Continue s ks) (t : TimeFactors α) :
    ∃ s', (r.shortRange t ks).Does s (.ok ()) s' ∧ r.Kicks t ks s s' := by
  rcases h.ends_shortRange r t with ⟨_, s', hdoes, hkicks⟩ | ⟨e, s', -, -, hgap⟩
  · exact ⟨s', hdoes, hkicks⟩
  · exact absurd hc hgap

/-- The stretches are of particles of the store after kicks, too. -/
theorem of_kicks {ks' : List Stretch} {s' : Store α} (h : Lists s ks) (hk : r.Kicks t ks' s s') :
    Lists s' ks where
  nodup := h.nodup
  lt_size k hmem := by
    have hlt := h.lt_size k hmem
    by_cases hlisted : k.place ∈ ks'.map (·.place)
    · obtain ⟨k', hk', hplace⟩ := List.mem_map.1 hlisted
      rw [← hplace]
      exact (Array.getElem?_eq_some_iff.1 (hk.listed k' hk')).1
    · have hsome := Array.getElem?_eq_getElem hlt
      rw [← hk.unlisted _ hlisted] at hsome
      exact (Array.getElem?_eq_some_iff.1 hsome).1

end Lists

end Kicker

end BlockStep
