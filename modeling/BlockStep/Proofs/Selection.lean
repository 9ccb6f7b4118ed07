import BlockStep.Proofs.Occupancy

namespace BlockStep

namespace Store

variable {α β : Type} [Scalar α]

def particle (s : Store α) (i : Nat) : Particle α := s[i]?.getD default

/-- The positions of the particles for which `P`, each once. -/
structure Lists (P : Particle α → Bool) (s : Store α) (places : List Nat) : Prop where
  nodup : places.Nodup
  mem_iff : ∀ i, i ∈ places ↔ ∃ p, s[i]? = some p ∧ P p

theorem gather_eq (s : Store α) (places : List Nat) : s.gather places = places.map s.particle := rfl

theorem particle_of_getElem? {s : Store α} {i : Nat} {p : Particle α} (h : s[i]? = some p) :
    s.particle i = p := by rw [particle, h, Option.getD_some]

namespace Lists

variable {P Q : Particle α → Bool} {s : Store α} {places : List Nat} {i : Nat}

theorem getElem?_of_mem (h : s.Lists P places) (hi : i ∈ places) :
    s[i]? = some (s.particle i) ∧ P (s.particle i) := by
  obtain ⟨p, hp, hP⟩ := (h.mem_iff i).1 hi
  rw [particle_of_getElem? hp]
  exact ⟨hp, hP⟩

theorem particle_mem (h : s.Lists P places) (hi : i ∈ places) : s.particle i ∈ s :=
  Array.mem_of_getElem? (h.getElem?_of_mem hi).1

theorem exists_place (h : s.Lists P places) {p : Particle α} (hp : p ∈ s) (hP : P p) :
    ∃ i ∈ places, s.particle i = p := by
  obtain ⟨i, hi⟩ := Array.getElem?_of_mem hp
  exact ⟨i, (h.mem_iff i).2 ⟨p, hi, hP⟩, particle_of_getElem? hi⟩

theorem filter (h : s.Lists P places) (Q : Particle α → Bool) :
    s.Lists (fun p => P p && Q p) (places.filter fun i => Q (s.particle i)) where
  nodup := h.nodup.filter _
  mem_iff i := by
    rw [List.mem_filter, h.mem_iff]
    constructor
    · rintro ⟨⟨p, hp, hP⟩, hQ⟩
      rw [particle_of_getElem? hp] at hQ
      exact ⟨p, hp, by rw [hP, hQ]; rfl⟩
    · rintro ⟨p, hp, hPQ⟩
      rw [Bool.and_eq_true] at hPQ
      exact ⟨⟨p, hp, hPQ.1⟩, by rw [particle_of_getElem? hp]; exact hPQ.2⟩

theorem particle_map (h : s.Lists P places) (f : Particle α → Particle α) (hi : i ∈ places) :
    Store.particle (s.map f) i = f (s.particle i) := by
  apply particle_of_getElem?
  rw [Array.getElem?_map, (h.getElem?_of_mem hi).1]
  rfl

omit [Scalar α] in
/-- A change that leaves the property of every particle leaves the list. -/
theorem map (h : s.Lists P places) (f : Particle α → Particle α) (hf : ∀ p ∈ s, P (f p) = P p) :
    Lists P (s.map f) places where
  nodup := h.nodup
  mem_iff i := by
    rw [h.mem_iff, Array.getElem?_map]
    constructor
    · rintro ⟨p, hp, hP⟩
      rw [hp]
      exact ⟨f p, rfl, (hf p (Array.mem_of_getElem? hp)).trans hP⟩
    · rintro ⟨q, hq, hQ⟩
      obtain ⟨p, hp, rfl⟩ := Option.map_eq_some_iff.1 hq
      exact ⟨p, hp, (hf p (Array.mem_of_getElem? hp)).symm.trans hQ⟩

theorem gather_map (h : s.Lists P places) (f : Particle α → Particle α) :
    Store.gather (s.map f) places = places.map fun i => f (s.particle i) := by
  rw [gather_eq]
  exact List.map_congr_left fun i hi => h.particle_map f hi

/-- Scattered changes are one change of all particles. -/
theorem scatter_map (h : s.Lists P places) (f : Particle α → Particle α)
    (change : β → Particle α → Particle α) (v : Particle α → β) :
    Store.scatter (s.map f) change places (places.map fun i => v (s.particle i)) =
      s.map fun p => if P p then change (v p) (f p) else f p := by
  apply Array.ext_getElem?
  intro i
  rw [Array.getElem?_map]
  by_cases hi : i ∈ places
  · obtain ⟨hp, hP⟩ := h.getElem?_of_mem hi
    have hz : (i, v (s.particle i)) ∈ places.zip (places.map fun i => v (s.particle i)) := by
      rw [List.zip_map_right, List.zip_eq_zipWith, List.zipWith_self, List.map_map]
      exact List.mem_map.2 ⟨i, hi, rfl⟩
    rw [getElem?_scatter_of_mem _ _ h.nodup hz, Array.getElem?_map, hp]
    simp only [Option.map_some, if_pos hP]
  · rw [getElem?_scatter_of_not_mem _ _ _ hi, Array.getElem?_map]
    cases hp : s[i]? with
    | none => rfl
    | some p =>
      have hP : ¬ P p := fun hP => hi ((h.mem_iff i).2 ⟨p, hp, hP⟩)
      simp only [Option.map_some, if_neg hP]

theorem eq_nil_iff (h : s.Lists P places) : places = [] ↔ ∀ p ∈ s, ¬ P p := by
  constructor
  · rintro rfl p hp hP
    obtain ⟨i, hi, -⟩ := h.exists_place hp hP
    cases hi
  · intro hn
    rw [List.eq_nil_iff_forall_not_mem]
    intro i hi
    exact hn _ (h.particle_mem hi) (h.getElem?_of_mem hi).2

theorem countP (h : s.Lists P places) (q : Particle α → Bool) :
    (places.map s.particle).countP q = s.countP fun p => P p && q p := by
  have hperm : places.Perm ((List.range s.size).filter fun i => P (s.particle i)) := by
    rw [List.perm_ext_iff_of_nodup h.nodup (List.nodup_range.filter _)]
    intro i
    rw [h.mem_iff, List.mem_filter, List.mem_range]
    constructor
    · rintro ⟨p, hp, hP⟩
      rw [particle_of_getElem? hp]
      exact ⟨(Array.getElem?_eq_some_iff.1 hp).1, hP⟩
    · rintro ⟨hi, hP⟩
      refine ⟨s[i], Array.getElem?_eq_getElem hi, ?_⟩
      rwa [particle_of_getElem? (Array.getElem?_eq_getElem hi)] at hP
  have hall : (List.range s.size).map s.particle = s.toList := by
    apply List.ext_getElem
    · simp
    · intro i hi hi'
      rw [List.getElem_map, List.getElem_range]
      exact particle_of_getElem? (Array.getElem?_eq_getElem (by simpa using hi'))
  rw [(hperm.map _).countP_eq, ← Array.countP_toList, ← hall, List.countP_map, List.countP_map,
    List.countP_filter]
  apply List.countP_congr
  intro i _
  rw [Function.comp_apply, Function.comp_apply, Bool.and_comm]

theorem length_eq (h : s.Lists P places) : places.length = s.countP P := by
  have hall := h.countP fun _ => true
  simpa only [List.countP_true, List.length_map, Bool.and_true] using hall

end Lists

end Store

namespace Registry

variable {α : Type} {n : Nat}

/-- The particle is in an active bin. -/
def isDue (r : Registry n) (p : Particle α) : Bool := r.isActive p.bin.toNat

theorem lists_due [Scalar α] (r : Registry n) (s : Store α) : s.Lists r.isDue (r.due s) where
  nodup := List.nodup_range.filter _
  mem_iff i := by
    rw [due, List.mem_filter, List.mem_range]
    constructor
    · rintro ⟨hi, hP⟩
      rw [Array.getElem?_eq_getElem hi] at hP
      exact ⟨s[i], Array.getElem?_eq_getElem hi, hP⟩
    · rintro ⟨p, hp, hP⟩
      obtain ⟨hi, -⟩ := Array.getElem?_eq_some_iff.1 hp
      refine ⟨hi, ?_⟩
      rw [hp]
      exact hP

end Registry

end BlockStep
