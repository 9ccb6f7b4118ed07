import BlockStep.Proofs.Rational
import Mathlib.Algebra.Order.Ring.Rat

namespace BlockStep

/-- Neither sums nor least numbers depend on the order in which they are taken. -/
class Scalar.Exact (α : Type) [Scalar α] : Prop where
  add_comm : ∀ x y : α, x + y = y + x
  add_assoc : ∀ x y z : α, x + y + z = x + (y + z)
  zero_add_zero : (0.0 : α) + 0.0 = 0.0
  lower_comm : ∀ x y : α, lower x y = lower y x
  lower_assoc : ∀ x y z : α, lower (lower x y) z = lower x (lower y z)
  lower_self : ∀ x : α, lower x x = x

theorem Scalar.lower_rat (x y : Rat) : lower x y = min x y := by
  rw [lower, isNaN_rat]
  simp only [Bool.false_eq_true, or_false, min_def]
  split <;> split <;> grind

instance : Scalar.Exact Rat where
  add_comm := Rat.add_comm
  add_assoc := Rat.add_assoc
  zero_add_zero := by decide +kernel
  lower_comm x y := by rw [Scalar.lower_rat, Scalar.lower_rat, min_comm]
  lower_assoc x y z := by simp only [Scalar.lower_rat, min_assoc]
  lower_self x := by rw [Scalar.lower_rat, min_self]

structure IsReduction {γ : Type} (op : γ → γ → γ) (e : γ) : Prop where
  comm : ∀ a b, op a b = op b a
  assoc : ∀ a b c, op (op a b) c = op a (op b c)
  seed : op e e = e

namespace IsReduction

variable {γ : Type} {op : γ → γ → γ} {e : γ}

theorem foldl_op (h : IsReduction op e) (xs : List γ) (a b : γ) :
    xs.foldl op (op a b) = op a (xs.foldl op b) := by
  induction xs generalizing b with
  | nil => rfl
  | cons x xs ih => rw [List.foldl_cons, List.foldl_cons, h.assoc, ih]

theorem foldl_append (h : IsReduction op e) (xs ys : List γ) :
    op (xs.foldl op e) (ys.foldl op e) = (xs ++ ys).foldl op e := by
  have hseed : op (xs.foldl op e) e = xs.foldl op e := by
    rw [h.comm, ← h.foldl_op, h.seed]
  rw [List.foldl_append, ← h.foldl_op, hseed]

theorem foldl_flatten (h : IsReduction op e) (xs : List γ) (xss : List (List γ)) :
    (xss.map (List.foldl op e)).foldl op (xs.foldl op e) = (xs :: xss).flatten.foldl op e := by
  induction xss generalizing xs with
  | nil => simp
  | cons ys xss ih =>
    rw [List.map_cons, List.foldl_cons, h.foldl_append, ih]
    simp

theorem foldl_perm (h : IsReduction op e) {xs ys : List γ} (hp : xs.Perm ys) :
    xs.foldl op e = ys.foldl op e := by
  refine hp.foldl_eq' (fun x _ y _ z => ?_) e
  rw [h.assoc, h.comm x y, ← h.assoc]

end IsReduction

variable {α : Type} [Scalar α] {m m' n : Nat}

namespace Scalar.Exact

variable [Scalar.Exact α]

theorem isReduction_add :
    IsReduction (· + · : α → α → α) 0.0 := ⟨add_comm, add_assoc, zero_add_zero⟩

theorem isReduction_lower (e : α) : IsReduction (lower : α → α → α) e :=
  ⟨lower_comm, lower_assoc, lower_self e⟩

end Scalar.Exact

namespace Ranks

/-- The particles of all ranks. -/
def particles (store : Ranks m (Store α)) : List (Particle α) :=
  (List.ofFn fun i => (store i).toList).flatten

variable {store : Ranks m (Store α)} {store' : Ranks m' (Store α)}

omit [Scalar α] in
theorem mem_particles {p : Particle α} : p ∈ particles store ↔ ∃ i, p ∈ store i := by
  rw [particles, List.mem_flatten]
  constructor
  · rintro ⟨ps, hps, hp⟩
    obtain ⟨i, rfl⟩ := List.mem_ofFn.1 hps
    exact ⟨i, Array.mem_toList_iff.1 hp⟩
  · rintro ⟨i, hp⟩
    exact ⟨_, List.mem_ofFn.2 ⟨i, rfl⟩, Array.mem_toList_iff.2 hp⟩

omit [Scalar α] in
theorem mem_iff_of_perm (h : (particles store).Perm (particles store')) {p : Particle α} :
    (∃ i, p ∈ store i) ↔ ∃ i, p ∈ store' i := by
  rw [← mem_particles, ← mem_particles, h.mem_iff]

omit [Scalar α] in
theorem dueTicks_eq_of_perm {now : Tick} {tb : Int}
    (h : (particles store).Perm (particles store')) :
    {t | ∃ i, t ∈ Registry.dueTicks now tb (store i)} =
      {t | ∃ i, t ∈ Registry.dueTicks now tb (store' i)} := by
  have hmem (p : Particle α) := mem_iff_of_perm h (p := p)
  ext t
  constructor
  · rintro ⟨i, rfl | ⟨p, hp, rfl⟩⟩
    · exact ⟨0, .inl rfl⟩
    · obtain ⟨i', hp'⟩ := (hmem p).1 ⟨i, hp⟩
      exact ⟨i', .inr ⟨p, hp', rfl⟩⟩
  · rintro ⟨i, rfl | ⟨p, hp, rfl⟩⟩
    · exact ⟨0, .inl rfl⟩
    · obtain ⟨i', hp'⟩ := (hmem p).2 ⟨i, hp⟩
      exact ⟨i', .inr ⟨p, hp', rfl⟩⟩

theorem sum_countP {β : Type} (q : β → Bool) (xss : List (List β)) :
    Registry.sum (xss.map fun xs => ((xs.countP q : Nat) : Int)) =
      (xss.flatten.countP q : Nat) := by
  induction xss with
  | nil => rfl
  | cons xs xss ih =>
    rw [List.map_cons, Registry.sum_cons, ih, List.flatten_cons, List.countP_append,
      Int.natCast_add]

omit [Scalar α] in
theorem total_countP (q : Particle α → Bool) (store : Ranks m (Store α)) :
    (total fun i => ((store i).countP q : Nat)) = ((particles store).countP q : Nat) := by
  rw [total_eq, particles, ← sum_countP, List.map_ofFn]
  congr 2
  funext i
  rw [Function.comp_apply, Array.countP_toList]

end Ranks

theorem getElem_foldl_zipWith {γ : Type} {n : Nat} (op : γ → γ → γ) (vs : List (Vector γ n))
    (v : Vector γ n) {k : Nat} (hk : k < n) :
    (vs.foldl (Vector.zipWith op) v)[k] = (vs.map (·[k])).foldl op v[k] := by
  induction vs generalizing v with
  | nil => rfl
  | cons w ws ih => rw [List.foldl_cons, ih, Vector.getElem_zipWith, List.map_cons, List.foldl_cons]

theorem Ranks.foldl_add_zipWith (v : Ranks m (Fin n → Int)) :
    (List.ofFn fun i : Fin m => Vector.ofFn (v i.succ)).foldl (Vector.zipWith (· + ·))
      (Vector.ofFn (v 0)) = Vector.ofFn fun k => total fun i => v i k := by
  apply Vector.ext
  intro k hk
  rw [getElem_foldl_zipWith, List.map_ofFn, Vector.getElem_ofFn, Vector.getElem_ofFn, total]
  congr 2
  funext i
  rw [Function.comp_apply, Vector.getElem_ofFn]

namespace IsReduction

variable {γ : Type} {op : γ → γ → γ} {e : γ}

theorem foldl_ofFn (h : IsReduction op e) (xs : Ranks m (List γ)) :
    (List.ofFn fun i : Fin m => (xs i.succ).foldl op e).foldl op ((xs 0).foldl op e) =
      (List.ofFn xs).flatten.foldl op e := by
  rw [List.ofFn_succ, ← h.foldl_flatten, List.map_ofFn]
  rfl

theorem foldl_zipWith (h : IsReduction op e) (xs : Ranks m (Fin n → List γ)) :
    (List.ofFn fun i : Fin m => Vector.ofFn fun k => (xs i.succ k).foldl op e).foldl
      (Vector.zipWith op) (Vector.ofFn fun k => (xs 0 k).foldl op e) =
      Vector.ofFn fun k => (List.ofFn fun i => xs i k).flatten.foldl op e := by
  apply Vector.ext
  intro k hk
  rw [getElem_foldl_zipWith, List.map_ofFn, Vector.getElem_ofFn, Vector.getElem_ofFn,
    ← h.foldl_ofFn]
  congr 2
  funext i
  rw [Function.comp_apply, Vector.getElem_ofFn]

end IsReduction

namespace KindStats

omit [Scalar α] in
theorem members_particles (store : Ranks m (Store α)) (k : Nat) :
    members (Ranks.particles store).toArray k =
      (List.ofFn fun i => members (store i) k).flatten := by
  rw [members, Ranks.particles, List.filter_flatten, List.map_ofFn]
  rfl

omit [Scalar α] in
theorem length_members (store : Store α) (k : Nat) :
    (members store k).length = store.countP fun p => p.kind == Int.ofNat k := by
  rw [members, ← List.countP_eq_length_filter, Array.countP_toList]

/-- The joint numbers are those of one rank with all particles. -/
theorem agreed_ofStore [Scalar.Exact α] (store : Ranks m (Store α)) :
    (agreed fun i => ofStore (store i)) = ofStore (Ranks.particles store).toArray := by
  rw [agreed, ofStore]
  congr 1
  · refine (Scalar.Exact.isReduction_add.foldl_zipWith fun i (k : Fin 6) =>
      (members (store i) k).map fun p => p.vel.normSq).trans ?_
    congr 1
    funext k
    rw [members_particles, List.map_flatten, List.map_ofFn]
    rfl
  · refine (Ranks.foldl_add_zipWith fun i (k : Fin 6) =>
      Int.ofNat (members (store i) k).length).trans ?_
    congr 1
    funext k
    simp only [length_members, List.countP_toArray]
    exact Ranks.total_countP _ store
  · refine ((Scalar.Exact.isReduction_lower leastSeed).foldl_zipWith fun i (k : Fin 6) =>
      ((members (store i) k).map (·.mass)).filter fun m => (0.0 : α) < m).trans ?_
    congr 1
    funext k
    rw [members_particles, List.map_flatten, List.map_ofFn, List.filter_flatten, List.map_ofFn]
    rfl

theorem ofStore_perm [Scalar.Exact α] {ps qs : List (Particle α)} (h : ps.Perm qs) :
    ofStore ps.toArray = ofStore qs.toArray := by
  have hmembers (k : Fin 6) : (members ps.toArray k).Perm (members qs.toArray k) := h.filter _
  rw [ofStore, ofStore]
  congr 1
  · congr 1
    funext k
    exact Scalar.Exact.isReduction_add.foldl_perm ((hmembers k).map _)
  · congr 1
    funext k
    rw [(hmembers k).length_eq]
  · congr 1
    funext k
    exact (Scalar.Exact.isReduction_lower leastSeed).foldl_perm (((hmembers k).map _).filter _)

end KindStats

namespace Course

variable {u : Setup α} {now : Tick} {mesh : MeshStep} {c : Course α} {store : Ranks m (Store α)}
  {store' : Ranks m' (Store α)}

theorem steps_eq_of_perm (h : (Ranks.particles store).Perm (Ranks.particles store')) :
    c.Steps u n store = c.Steps u n store' := by
  have hmem (p : Particle α) := Ranks.mem_iff_of_perm h (p := p)
  ext t
  refine or_congr_right ⟨?_, ?_⟩
  · rintro ⟨i, p, hp, hd, ht⟩
    obtain ⟨i', hp'⟩ := (hmem p).1 ⟨i, hp⟩
    exact ⟨i', p, hp', hd, ht⟩
  · rintro ⟨i, p, hp, hd, ht⟩
    obtain ⟨i', hp'⟩ := (hmem p).2 ⟨i, hp⟩
    exact ⟨i', p, hp', hd, ht⟩

theorem faults_eq_of_perm (h : (Ranks.particles store).Perm (Ranks.particles store')) :
    c.faults u n store = c.faults u n store' := by
  rw [faults, faults, Ranks.total_countP, Ranks.total_countP, h.countP_eq]

theorem Agreed.of_perm [Scalar.Exact α] (h : (Ranks.particles store).Perm (Ranks.particles store'))
    (hc : c.Agreed u n mesh store) : c.Agreed u n mesh store' where
  renewed hm := by
    rw [KindStats.agreed_ofStore, ← KindStats.ofStore_perm h, ← KindStats.agreed_ofStore]
    exact hc.renewed hm
  kept := hc.kept
  equal he := by
    rw [← steps_eq_of_perm h]
    exact hc.equal he
  own := hc.own
  measured i p hp hd := by
    obtain ⟨i', hp'⟩ := (Ranks.mem_iff_of_perm h).2 ⟨i, hp⟩
    exact hc.measured i' p hp' hd
  accepted i p hp hd := by
    obtain ⟨i', hp'⟩ := (Ranks.mem_iff_of_perm h).2 ⟨i, hp⟩
    exact hc.accepted i' p hp' hd

theorem Heads.of_perm {s : Ranks m (Stepper α n)} {s' : Ranks m' (Stepper α n)}
    (h : (Ranks.particles fun i => (s i).store).Perm (Ranks.particles fun i => (s' i).store))
    (hcounts : ∀ i, (s i).registry.Counts (s i).store)
    (hcounts' : ∀ i, (s' i).registry.Counts (s' i).store) (hl : now.localTick < u.timebase)
    (hc : c.Heads u now s) : c.Heads u now s' := by
  have hfits : ∀ i, ∀ p ∈ (s' i).store, p.Fits n := by
    intro i p hp
    obtain ⟨i', hp'⟩ := (Ranks.mem_iff_of_perm h).2 ⟨i, hp⟩
    exact hc.fits i' p hp'
  have hleast := Ranks.isLeast_least fun i => (hcounts i).isLeast_nextSync hl
    fun p hp => ⟨(hc.fits i p hp).1, (hc.fits i p hp).2.1⟩
  have hleast' := Ranks.isLeast_least fun i => (hcounts' i).isLeast_nextSync hl
    fun p hp => ⟨(hfits i p hp).1, (hfits i p hp).2.1⟩
  rw [Ranks.dueTicks_eq_of_perm h] at hleast
  refine ⟨?_, hc.le, hc.instant, hfits⟩
  rw [hc.next, hleast.unique hleast']

end Course

end BlockStep
