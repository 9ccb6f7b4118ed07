import BlockStep.Proofs.Desire
import BlockStep.Proofs.Placement
import Mathlib.Algebra.BigOperators.Group.List.Basic
import Mathlib.Order.Bounds.Basic

namespace BlockStep

namespace Shaped

variable {β γ δ : Type}

/-- There are as many cells as the extents ask for. -/
def IsFull (s : Shaped β) : Prop := s.cells.size = s.shape.prod

theorem matched?_self (ds : List Nat) : matched? ds ds = some ds := by
  induction ds with
  | nil => rfl
  | cons d ds ih => rw [matched?, if_pos (.inl rfl), ih, Option.map_some]

theorem position_self {ds : List Nat} {flat : Nat} (h : flat < ds.prod) :
    position ds ds flat = flat := by
  induction ds generalizing flat with
  | nil =>
    have hzero : flat = 0 := Nat.lt_one_iff.1 h
    rw [hzero]
    rfl
  | cons d ds ih =>
    rw [List.prod_cons] at h
    have hrest : position ds ds (flat / d) = flat / d := ih (Nat.div_lt_of_lt_mul h)
    simp only [position, hrest]
    split
    next hone => rw [hone, Nat.div_one]
    · exact Nat.mod_add_div flat d

theorem mapM_range {f : Nat → Option β} {bs : List β} (h : ∀ i, i < bs.length → f i = bs[i]?) :
    (List.range bs.length).mapM f = some bs := by
  induction bs generalizing f with
  | nil => rfl
  | cons b bs ih =>
    have hfirst : f 0 = some b := h 0 (Nat.succ_pos _)
    have hrest : (List.range bs.length).mapM (f ∘ Nat.succ) = some bs :=
      ih fun i hi => h (i + 1) (Nat.succ_lt_succ hi)
    rw [List.length_cons, List.range_succ_eq_map, List.mapM_cons, List.mapM_map, hfirst, hrest]
    rfl

/-- Arrangements of one shape are joined cell by cell. -/
theorem zipWith?_of_shape_eq (f : β → γ → δ) {s : Shaped β} {t : Shaped γ} (h : s.shape = t.shape)
    (hs : s.IsFull) (ht : t.IsFull) :
    s.zipWith? f t = some ⟨s.shape, Array.zipWith f s.cells t.cells⟩ := by
  have hsize : t.cells.size = s.cells.size := by
    rw [hs, ht, h]
  have hlength : (Array.zipWith f s.cells t.cells).toList.length = s.cells.size := by
    simp [hsize]
  have hprod : s.shape.reverse.foldl (· * ·) 1 =
      (Array.zipWith f s.cells t.cells).toList.length := by
    rw [← List.prod_eq_foldl, List.prod_reverse, hlength, hs]
  simp only [zipWith?, ← h, matched?_self, Option.bind_eq_bind, Option.bind_some, hprod]
  rw [mapM_range, Option.bind_some, List.reverse_reverse, Array.toArray_toList]
  · rfl
  · intro i hi
    rw [hlength] at hi
    have hpos : position s.shape.reverse s.shape.reverse i = i := by
      apply position_self
      rwa [List.prod_reverse, ← hs]
    simp [hpos, hi, hsize]

end Shaped

namespace Assign

variable {n : Nat} {f : Nat → Bool} {desired desired' current : Int}

theorem isFault_roundDown (desired : Int) :
    isFault (TickCount.roundDown desired) = decide (desired ≤ 1) := by
  rw [isFault, decide_eq_decide]
  by_cases h : 1 ≤ desired
  · obtain ⟨b, hb, -, hle, hlt⟩ := TickCount.roundDown_spec h
    have hpos := pow2_pos b
    rw [hb]
    constructor
    · intro hone
      have hzero : b = 0 := by
        by_contra hne
        have htwo : pow2 1 ≤ pow2 b := pow2_le (by omega)
        have : pow2 1 = 2 := rfl
        omega
      rcases hlt with hlt | h62
      · rw [hzero] at hlt
        have : pow2 (0 + 1) = 2 := rfl
        omega
      · omega
    · omega
  · rw [TickCount.roundDown_of_not_pos (by omega)]
    omega

def asked (n : Nat) (desired : Int) : Nat := min desired.toNat.log2 (n - 1)

theorem asked_mono (h : desired ≤ desired') (hd : 1 ≤ desired) :
    asked n desired ≤ asked n desired' := by
  have hlog : desired.toNat.log2 ≤ desired'.toNat.log2 := by
    rw [Nat.le_log2 (by omega)]
    exact Nat.le_trans (Nat.log2_self_le (by omega)) (by omega)
  rw [asked, asked]
  omega

theorem pow2_asked_le (hd : 1 ≤ desired) : (pow2 (asked n desired) : Int) ≤ desired := by
  have hlog : pow2 desired.toNat.log2 ≤ desired.toNat := pow2_log2_le (by omega)
  have hle : pow2 (asked n desired) ≤ pow2 desired.toNat.log2 := pow2_le (Nat.min_le_left _ _)
  omega

theorem candidate_eq (hn : 1 ≤ n) (hn' : n ≤ 63) (hd : 1 ≤ desired) :
    candidate n desired = asked n desired := by
  obtain ⟨b, hb, hb62, hle, hlt⟩ := TickCount.roundDown_spec hd
  have hlow : b ≤ desired.toNat.log2 := by
    rw [Nat.le_log2 (by omega)]
    have hnat : pow2 b ≤ desired.toNat := by omega
    exact hnat
  have hbin : min (b : Int) (n - 1) = asked n desired := by
    rw [asked]
    rcases hlt with hlt | h62
    · have hhigh : desired.toNat.log2 < b + 1 := by
        rw [Nat.log2_lt (by omega)]
        have hnat : desired.toNat < pow2 (b + 1) := by omega
        exact hnat
      omega
    · omega
  rw [candidate, hb, TickCount.binOf_pow2 hb62, hbin]

def Allowed (f : Nat → Bool) (current : Int) (asked : Nat) : Set Int :=
  {b | b = current ∨ ∃ c : Nat, b = c ∧ f c ∧ current < c ∧ c ≤ asked}

theorem allowed_subset {a b : Nat} (h : a ≤ b) : Allowed f current a ⊆ Allowed f current b := by
  rintro c (rfl | ⟨d, rfl, hd, hgrow, hle⟩)
  · exact .inl rfl
  · exact .inr ⟨d, rfl, hd, hgrow, Nat.le_trans hle h⟩

theorem isGreatest_allowed (f : Nat → Bool) {asked : Nat} (h0 : 0 ≤ current) :
    IsGreatest (Allowed f current asked) (max (highestActive f asked) current) := by
  constructor
  · rcases highestActive_cases f asked with hnone | ⟨c, hc, heq⟩
    · rw [hnone]
      exact .inl (by omega)
    · have hle := highestActive_le f asked
      by_cases hgrow : current < c
      · exact .inr ⟨c, by omega, hc, hgrow, by omega⟩
      · exact .inl (by omega)
  · rintro b (rfl | ⟨c, rfl, hc, -, hle⟩)
    · exact Int.le_max_right _ _
    · exact Int.le_trans (le_highestActive hc hle) (Int.le_max_left _ _)

/-- What an assignment makes of a desired step and a bin: a step of at most one tick leaves the
particle where it is; one that asks for no higher bin gets the bin that it asks for; another one
gets the greatest bin allowed to it. -/
structure Rule (n : Nat) (f : Nat → Bool) (desired current : Int) (p : Placement) : Prop where
  stays : desired ≤ 1 → p.bin = current
  shrinks : 1 < desired → asked n desired ≤ current → p.bin = asked n desired
  grows : 1 < desired → current < asked n desired →
    IsGreatest (Allowed f current (asked n desired)) p.bin
  ticks : p.ticks = if p.bin = 0 then 0 else 2 ^ p.bin.toNat
  ticks_le : 1 < desired → p.ticks ≤ desired
  isActive : current < p.bin → f p.bin.toNat

theorem cadence_eq {bin : Int} (h0 : 0 ≤ bin) (h : bin < 63) :
    TickCount.cadence bin = if bin = 0 then 0 else 2 ^ bin.toNat := by
  split
  next hzero => rw [hzero, TickCount.cadence_zero]
  next hne =>
    rw [TickCount.cadence_of_pos (by omega) h]
    exact Int.natCast_pow 2 bin.toNat

theorem place_stays (hd : desired ≤ 1) : (place n f desired current).bin = current := by
  rw [place, isFault_roundDown, if_pos (decide_eq_true hd)]

section Rule

variable (hn : n ≤ 63) (h0 : 0 ≤ current) (hlt : current < n)

include hn h0 hlt

theorem place_shrinks (hd : 1 < desired) (h : asked n desired ≤ current) :
    (place n f desired current).bin = asked n desired := by
  have hc : candidate n desired = asked n desired := candidate_eq (by omega) hn (by omega)
  have hgrow : ¬ grows n desired current := by
    rw [grows, hc, decide_eq_true_eq]
    omega
  have hfault : ¬ isFault (TickCount.roundDown desired) := by
    rw [isFault_roundDown, decide_eq_true_eq]
    omega
  rw [place]
  simp only [if_neg hfault, if_neg hgrow, hc]

theorem place_grows (hd : 1 < desired) (h : current < asked n desired) :
    IsGreatest (Allowed f current (asked n desired)) (place n f desired current).bin := by
  have hc : candidate n desired = asked n desired := candidate_eq (by omega) hn (by omega)
  have hgrow : grows n desired current := by
    rw [grows, hc, decide_eq_true_eq]
    exact h
  have hfault : ¬ isFault (TickCount.roundDown desired) := by
    rw [isFault_roundDown, decide_eq_true_eq]
    omega
  rw [place]
  simp only [if_neg hfault, if_pos hgrow, hc, Int.toNat_natCast]
  exact isGreatest_allowed f h0

theorem place_cases (desired : Int) :
    (place n f desired current).bin = current ∧ (1 < desired → current < asked n desired) ∨
    ∃ b : Nat, (place n f desired current).bin = b ∧ b ≤ asked n desired ∧ (current < b → f b) := by
  by_cases hd : desired ≤ 1
  · exact .inl ⟨place_stays hd, fun h => absurd hd (Int.not_le.2 h)⟩
  have hd' : 1 < desired := Int.not_le.1 hd
  by_cases hle : (asked n desired : Int) ≤ current
  · exact .inr ⟨_, place_shrinks hn h0 hlt hd' hle, Nat.le_refl _,
      fun h => absurd hle (Int.not_le.2 h)⟩
  have hgrow : current < asked n desired := Int.not_le.1 hle
  rcases (place_grows (f := f) hn h0 hlt hd' hgrow).1 with hsame | ⟨c, hbin, hc, -, hmost⟩
  · exact .inl ⟨hsame, fun _ => hgrow⟩
  · exact .inr ⟨c, hbin, hmost, fun _ => hc⟩

theorem rule_place : Rule n f desired current (place n f desired current) := by
  have hlast : asked n desired ≤ n - 1 := Nat.min_le_right _ _
  generalize hp : place n f desired current = p
  have hcases := place_cases (f := f) hn h0 hlt desired
  rw [hp] at hcases
  have hbin : 0 ≤ p.bin ∧ p.bin < 63 := by
    rcases hcases with ⟨hsame, -⟩ | ⟨b, hb, hle, -⟩
    · omega
    · omega
  have hticks : p.ticks = if p.bin = 0 then 0 else 2 ^ p.bin.toNat := by
    rw [← cadence_eq hbin.1 hbin.2, ← hp]
    rfl
  refine ⟨?_, ?_, ?_, hticks, fun hd => ?_, fun hgrow => ?_⟩
  · exact hp ▸ place_stays
  · exact hp ▸ place_shrinks hn h0 hlt
  · exact hp ▸ place_grows hn h0 hlt
  · have hmost : p.bin.toNat ≤ asked n desired := by
      rcases hcases with ⟨hsame, hasked⟩ | ⟨b, hb, hle, -⟩
      · have := hasked hd
        omega
      · omega
    have hpow : pow2 p.bin.toNat ≤ pow2 (asked n desired) := pow2_le hmost
    have hasked : (pow2 (asked n desired) : Int) ≤ desired := pow2_asked_le (by omega)
    have hcast : (2 : Int) ^ p.bin.toNat = (pow2 p.bin.toNat : Nat) := (Int.natCast_pow 2 _).symm
    rw [hticks]
    split
    · omega
    · omega
  · rcases hcases with ⟨hsame, -⟩ | ⟨b, hb, -, hactive⟩
    · omega
    · rw [hb, Int.toNat_natCast]
      exact hactive (by omega)

theorem place_mono (hd : 1 < desired) (h : desired ≤ desired') :
    (place n f desired current).bin ≤ (place n f desired' current).bin := by
  have hasked : asked n desired ≤ asked n desired' := asked_mono h (by omega)
  have hd' : 1 < desired' := by omega
  by_cases hle' : (asked n desired' : Int) ≤ current
  · rw [place_shrinks hn h0 hlt hd (by omega), place_shrinks hn h0 hlt hd' hle']
    omega
  · have hgreatest := place_grows (f := f) hn h0 hlt hd' (Int.not_le.1 hle')
    by_cases hle : (asked n desired : Int) ≤ current
    · rw [place_shrinks hn h0 hlt hd hle]
      exact Int.le_trans hle (hgreatest.2 (.inl rfl))
    · exact hgreatest.2 (allowed_subset hasked (place_grows hn h0 hlt hd (Int.not_le.1 hle)).1)

end Rule

section Rows

variable {α σ : Type} {mask : List Bool} (hm : mask.length = n)

include hm

theorem does_placeAll {desired current : Shaped Int} (hshape : desired.shape = current.shape)
    (hdesired : desired.IsFull) (hcurrent : current.IsFull) (h : ∀ d ∈ desired.cells, 0 ≤ d)
    (s : σ) : (placeAll n mask desired current : Act α σ _).Does s
      (.ok (⟨desired.shape,
          Array.zipWith (place n fun b => mask.getD b false) desired.cells current.cells⟩,
        desired.map fun d => decide (d ≤ 1))) s := by
  have hany : ¬ desired.cells.any (· < 0) := by
    rw [Array.any_eq_true']
    rintro ⟨d, hd, hneg⟩
    exact absurd (h d hd) (Int.not_le.2 (of_decide_eq_true hneg))
  have hlist := does_placeList (α := α) hm
    (Array.zipWith Prod.mk desired.cells current.cells).toList
    (fun d hd => h d (Array.mem_toList_iff.1 hd)) s
  simp only [placeAll, if_neg hany, Shaped.zipWith?_of_shape_eq Prod.mk hshape hdesired hcurrent,
    isFault_roundDown]
  refine Act.does_bind_ok.2 ⟨_, s, hlist, Act.does_pure.2 ⟨?_, rfl⟩⟩
  congr 3
  apply Array.ext'
  simp

end Rows

/-- Rows of desired steps and of bins are placed cell by cell by the rule, where all cadences are
words; of two usable steps from one bin the longer one does not get the lower bin. A single negative
step refuses all of them. -/
theorem bins_follow_rule {α σ : Type} {mask : List Bool} {desired current : Shaped Int}
    (hn : n ≤ 63) (hm : mask.length = n) (hshape : desired.shape = current.shape)
    (hdesired : desired.IsFull) (hcurrent : current.IsFull)
    (hbins : ∀ b ∈ current.cells, 0 ≤ b ∧ b < n) (s : σ) :
    ((∀ d ∈ desired.cells, 0 ≤ d) → ∃ (placed : Shaped Placement) (faults : Shaped Bool),
      (placeAll n mask desired current : Act α σ _).Does s (.ok (placed, faults)) s ∧
      placed.shape = desired.shape ∧ placed.IsFull ∧ faults.shape = desired.shape ∧ faults.IsFull ∧
      (∀ (i : Nat) (d b : Int), desired.cells[i]? = some d → current.cells[i]? = some b →
        faults.cells[i]? = some (decide (d ≤ 1)) ∧
        ∃ p, placed.cells[i]? = some p ∧ Rule n (fun b => mask.getD b false) d b p) ∧
      ∀ (i j : Nat) (d d' b : Int) (p p' : Placement),
        desired.cells[i]? = some d → desired.cells[j]? = some d' →
        current.cells[i]? = some b → current.cells[j]? = some b →
        placed.cells[i]? = some p → placed.cells[j]? = some p' →
        1 < d → d ≤ d' → p.bin ≤ p'.bin) ∧
    ((∃ d ∈ desired.cells, d < 0) →
      (placeAll n mask desired current : Act α σ _).Does s (.error .negativeTicks) s) := by
  constructor
  · intro hpos
    have hcell {i : Nat} {d b : Int} (hd : desired.cells[i]? = some d)
        (hb : current.cells[i]? = some b) :
        (Array.zipWith (place n fun b => mask.getD b false) desired.cells current.cells)[i]? =
          some (place n (fun b => mask.getD b false) d b) := by
      rw [Array.getElem?_zipWith, hd, hb]
    refine ⟨_, _, does_placeAll hm hshape hdesired hcurrent hpos s, rfl, ?_, rfl, ?_, ?_, ?_⟩
    · have hsize : current.cells.size = desired.cells.size := by
        rw [hdesired, hcurrent, hshape]
      rw [Shaped.IsFull, Array.size_zipWith, hsize, Nat.min_self]
      exact hdesired
    · rw [Shaped.IsFull, Shaped.map, Array.size_map]
      exact hdesired
    · intro i d b hd hb
      obtain ⟨h0, hlt⟩ := hbins b (Array.mem_of_getElem? hb)
      refine ⟨?_, _, hcell hd hb, rule_place hn h0 hlt⟩
      rw [Shaped.map, Array.getElem?_map, hd, Option.map_some]
    · intro i j d d' b p p' hd hd' hb hb' hp hp' hone hle
      obtain ⟨h0, hlt⟩ := hbins b (Array.mem_of_getElem? hb)
      cases (hcell hd hb).symm.trans hp
      cases (hcell hd' hb').symm.trans hp'
      exact place_mono hn h0 hlt hone hle
  · rintro ⟨d, hd, hneg⟩
    have hany : desired.cells.any (· < 0) := by
      rw [Array.any_eq_true']
      exact ⟨d, hd, decide_eq_true hneg⟩
    rw [placeAll, if_pos hany]
    exact Act.does_bind_error.2 (.inl (Act.does_fail.2 ⟨rfl, rfl⟩))

theorem bins_follow_rule_sample : ∃ (placed : Shaped Placement) (faults : Shaped Bool),
    (placeAll 6 [true, false, true, true, false, false] (.row [40, 9, 1]) (.row [1, 4, 3]) :
      Act Unit Unit _).Does () (.ok (placed, faults)) () ∧
    ∃ p, placed.cells[0]? = some p ∧ IsGreatest (Allowed
      (fun b => [true, false, true, true, false, false].getD b false) 1 5) p.bin := by
  have hshape : (Shaped.row [40, 9, 1] : Shaped Int).shape =
      (Shaped.row [1, 4, 3] : Shaped Int).shape :=
    rfl
  have hbins : ∀ b ∈ (Shaped.row [1, 4, 3] : Shaped Int).cells, 0 ≤ b ∧ b < (6 : Nat) := by
    decide
  have hpos : ∀ d ∈ (Shaped.row [40, 9, 1] : Shaped Int).cells, 0 ≤ d := by
    decide
  have hmask : [true, false, true, true, false, false].length = 6 := rfl
  obtain ⟨placed, faults, hdoes, -, -, -, -, hrule, -⟩ :=
    (bins_follow_rule (α := Unit) (by decide) hmask hshape rfl rfl hbins ()).1 hpos
  obtain ⟨-, p, hp, hp'⟩ := hrule 0 40 1 rfl rfl
  exact ⟨placed, faults, hdoes, p, hp, hp'.grows (by decide) (by decide)⟩

end Assign

end BlockStep
