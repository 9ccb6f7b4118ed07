import BlockStep.Proofs.Census
import BlockStep.Proofs.Growth
import BlockStep.Proofs.Rational
import BlockStep.Proofs.Selection
import BlockStep.Registry.Moves

namespace BlockStep

variable {α : Type} {n : Nat}

namespace Store

/-- The listed particles put into new bins. -/
def rebin (s : Store α) (bins : Nat → Int) (places : List Nat) : Store α :=
  s.scatter (fun b p => { p with bin := b }) places (places.map bins)

theorem getElem?_rebin (s : Store α) (bins : Nat → Int) {places : List Nat} (hn : places.Nodup)
    (i : Nat) :
    (s.rebin bins places)[i]? =
      if i ∈ places then s[i]?.map fun p => { p with bin := bins i } else s[i]? := by
  split
  next hi =>
    have hz : (i, bins i) ∈ places.zip (places.map bins) := by
      rw [List.zip_map_right, List.zip_eq_zipWith, List.zipWith_self, List.map_map]
      exact List.mem_map.2 ⟨i, hi, rfl⟩
    exact getElem?_scatter_of_mem s _ hn hz
  next hi => exact getElem?_scatter_of_not_mem s _ _ hi

theorem rebin_perm (s : Store α) (bins : Nat → Int) {places places' : List Nat} (hn : places.Nodup)
    (hp : places'.Perm places) : s.rebin bins places' = s.rebin bins places := by
  apply Array.ext_getElem?
  intro i
  rw [getElem?_rebin s bins hn, getElem?_rebin s bins (hp.nodup_iff.2 hn)]
  simp only [hp.mem_iff]

theorem rebin_append (s : Store α) (bins : Nat → Int) (places rest : List Nat) :
    s.rebin bins (places ++ rest) = (s.rebin bins places).rebin bins rest := by
  rw [rebin, scatter, List.map_append, List.zip_append (by rw [List.length_map]), List.foldl_append]
  rfl

end Store

namespace Move

/-- The moves of rows of kinds, old bins and new bins. -/
def ofRows (kinds sources targets : List Int) : List Move :=
  List.zipWith (fun k w => ⟨k, w.1, w.2⟩) kinds (List.zip sources targets)

theorem ofRows_map {β : Type} (xs : List β) (kind source target : β → Int) :
    ofRows (xs.map kind) (xs.map source) (xs.map target) =
      xs.map fun x => ⟨kind x, source x, target x⟩ := by
  induction xs with
  | nil => rfl
  | cons x xs ih =>
    simp only [ofRows, List.map_cons, List.zip_cons_cons, List.zipWith_cons_cons, List.cons.injEq,
      true_and] at ih ⊢
    exact ih

def arrivals (moves : List Move) (kind bin : Int) : Nat :=
  moves.countP fun m => decide (m.kind = kind ∧ m.target = bin)

def departures (moves : List Move) (kind bin : Int) : Nat :=
  moves.countP fun m => decide (m.kind = kind ∧ m.source = bin)

theorem gain_filter_kind (ms : List Move) (kind bin : Int) :
    gain (ms.filter fun m => decide (m.kind = kind)) bin =
      arrivals ms kind bin - departures ms kind bin := by
  rw [gain, List.countP_filter, List.countP_filter, arrivals, departures]
  simp only [Bool.decide_and, Bool.and_comm]

theorem mem_ofRows {kinds sources targets : List Int} {m : Move}
    (h : m ∈ ofRows kinds sources targets) :
    m.kind ∈ kinds ∧ (m.source, m.target) ∈ sources.zip targets := by
  rw [ofRows, ← List.map_uncurry_zip_eq_zipWith] at h
  obtain ⟨⟨k, w⟩, hw, rfl⟩ := List.mem_map.1 h
  exact List.of_mem_zip hw

theorem ofColumns_row {kinds sources targets : List Int} (hs : sources.length = kinds.length)
    (ht : targets.length = kinds.length) :
    ∃ moves, ofColumns (.row kinds) (.row sources) (.row targets) = .ok moves ∧
      moves.filter (fun m => decide m.Changes) =
        (ofRows kinds sources targets).filter fun m => decide m.Changes := by
  have hshape : (Shaped.row sources).shape = (Shaped.row targets).shape := by
    rw [Shaped.row, Shaped.row, hs, ht]
  have hfull (is : List Int) : (Shaped.row is).IsFull := by simp [Shaped.IsFull, Shaped.row]
  have hz : Given.zip (fun s t => (s, t)) (Shaped.row sources) (Shaped.row targets) =
      .ok ⟨[kinds.length], (sources.zip targets).toArray⟩ := by
    rw [Given.zip, Shaped.zipWith?_of_shape_eq _ hshape (hfull sources) (hfull targets)]
    simp [Shaped.row, hs, List.zip]
  rw [ofColumns, hz]
  by_cases hall : ∀ w ∈ sources.zip targets, w.1 = w.2
  · refine ⟨[], if_pos (by simpa [Shaped.all] using hall), ?_⟩
    rw [List.filter_nil, eq_comm, List.filter_eq_nil_iff]
    intro m hm hc
    exact of_decide_eq_true hc (hall _ (mem_ofRows hm).2)
  · refine ⟨_, (if_neg (by simpa [Shaped.all] using hall)).trans (if_pos ?_), rfl⟩
    simp [Shaped.row, hs, ht]

end Move

namespace Registry

open Stepper (Turn)

def migrateRows (r : Registry n) (kinds sources targets : List Int) :
    Registry n × Except Fault Nat :=
  match Move.ofColumns (.row kinds) (.row sources) (.row targets) with
  | .ok moves => r.migrate moves
  | .error e => (r, .error e)

theorem migrate_congr (r : Registry n) {ms ms' : List Move}
    (h : ms.filter (fun m => decide m.Changes) = ms'.filter fun m => decide m.Changes) :
    r.migrate ms = r.migrate ms' := by
  simp only [migrate, h]

theorem migrateRows_eq (r : Registry n) {kinds sources targets : List Int}
    (hs : sources.length = kinds.length) (ht : targets.length = kinds.length) :
    r.migrateRows kinds sources targets = r.migrate (Move.ofRows kinds sources targets) := by
  obtain ⟨moves, hmoves, hfilter⟩ := Move.ofColumns_row hs ht
  rw [migrateRows, hmoves]
  exact r.migrate_congr hfilter

theorem eq_countP_of_migrate {r r' : Registry n} {ms : List Move} {k : Nat}
    (h : r.migrate ms = (r', .ok k)) : k = ms.countP fun m => decide m.Changes := by
  rw [List.countP_eq_length_filter]
  simp only [migrate] at h
  split at h
  next he =>
    cases h
    rw [List.isEmpty_iff.1 he, List.length_nil]
  next =>
    split at h
    · cases h
    · split at h
      · cases h
      · split at h
        · cases h
          rfl
        · cases h

namespace Counts

variable {r r' : Registry n} {store : Store α}

theorem unique (h : r.Counts store) (h' : r'.Counts store) (ha : r'.active = r.active) :
    r' = r := by
  cases r with
  | mk count byKind active =>
    cases r' with
    | mk count' byKind' active' =>
      rw [Registry.mk.injEq]
      exact ⟨h'.total.trans h.total.symm, h'.kinds.trans h.kinds.symm, ha⟩

theorem recount_eq (h : r'.Counts store) (ha : r'.active = r.active) (hf : ∀ p ∈ store, p.Fits n) :
    r.recount store = (r', .ok (r'.due store)) := by
  cases r.recount_cases store with
  | inl hok =>
    obtain ⟨r₁, hr₁, hcounts, hactive, -⟩ := hok
    obtain rfl := h.unique hcounts (hactive.trans ha.symm)
    exact hr₁
  | inr herror =>
    obtain ⟨-, -, -, -, hnot⟩ := herror
    exact absurd hf hnot

theorem of_recount {due : List Nat} (h : r.recount store = (r, .ok due)) :
    r.Counts store ∧ ∀ p ∈ store, p.Fits n := by
  cases r.recount_cases store with
  | inl hok =>
    obtain ⟨r', hr, hcounts, -, hf⟩ := hok
    obtain rfl : r = r' := congrArg Prod.fst (h.symm.trans hr)
    exact ⟨hcounts, hf⟩
  | inr herror =>
    obtain ⟨r', e, hr, -, -⟩ := herror
    cases h.symm.trans hr

end Counts

/-- New bins for listed particles of a store, each listed once. -/
structure Reassigns (n : Nat) (store : Store α) (bins : Nat → Int) (places : List Nat) : Prop where
  nodup : places.Nodup
  lt_size : ∀ i ∈ places, i < store.size
  hasBin : ∀ i ∈ places, 0 ≤ bins i ∧ bins i < n

namespace Reassigns

variable {store current : Store α} {bins : Nat → Int} {places places' : List Nat}

theorem perm (h : Reassigns n store bins places) (hp : places'.Perm places) :
    Reassigns n store bins places' where
  nodup := hp.nodup_iff.2 h.nodup
  lt_size i hi := h.lt_size i (hp.mem_iff.1 hi)
  hasBin i hi := h.hasBin i (hp.mem_iff.1 hi)

theorem left (h : Reassigns n store bins (places ++ places')) : Reassigns n store bins places where
  nodup := (List.nodup_append.1 h.nodup).1
  lt_size i hi := h.lt_size i (List.mem_append_left places' hi)
  hasBin i hi := h.hasBin i (List.mem_append_left places' hi)

theorem right (h : Reassigns n store bins (places ++ places')) :
    Reassigns n store bins places' where
  nodup := (List.nodup_append.1 h.nodup).2.1
  lt_size i hi := h.lt_size i (List.mem_append_right places hi)
  hasBin i hi := h.hasBin i (List.mem_append_right places hi)

theorem of_getElem? (h : Reassigns n store bins places)
    (hs : ∀ i ∈ places, current[i]? = store[i]?) : Reassigns n current bins places where
  nodup := h.nodup
  lt_size i hi := by
    have hsome := Array.getElem?_eq_getElem (h.lt_size i hi)
    exact (Array.getElem?_eq_some_iff.1 ((hs i hi).trans hsome)).1
  hasBin := h.hasBin

theorem getElem?_particle [Scalar α] (h : Reassigns n store bins places) {i : Nat}
    (hi : i ∈ places) : store[i]? = some (store.particle i) := by
  have hp := Array.getElem?_eq_getElem (h.lt_size i hi)
  rw [hp, Store.particle_of_getElem? hp]

theorem fits_rebin (h : Reassigns n store bins places) (hf : ∀ p ∈ store, p.Fits n) :
    ∀ p ∈ store.rebin bins places, p.Fits n := by
  intro p hp
  obtain ⟨i, hi⟩ := Array.getElem?_of_mem hp
  rw [Store.getElem?_rebin store bins h.nodup] at hi
  split at hi
  next hmem =>
    obtain ⟨q, hq, rfl⟩ := Option.map_eq_some_iff.1 hi
    have hfits := hf q (Array.mem_of_getElem? hq)
    exact ⟨(h.hasBin i hmem).1, (h.hasBin i hmem).2, hfits.2.2⟩
  · exact hf p (Array.mem_of_getElem? hi)

end Reassigns

section Batches

variable [Scalar α] {r : Registry n} {store current : Store α} {bins : Nat → Int}
  {places : List Nat}

def migrateListed (r : Registry n) (store : Store α) (bins : Nat → Int) (places : List Nat) :
    Registry n × Except Fault Nat :=
  r.migrateRows (places.map fun i => (store.particle i).kind)
    (places.map fun i => (store.particle i).bin) (places.map bins)

/-- Moves listed particles batch by batch and counts those that change their bin. -/
def migrateBatches (r : Registry n) (store : Store α) (bins : Nat → Int) :
    List (List Nat) → Registry n × Except Fault Nat
  | [] => (r, .ok 0)
  | batch :: batches =>
    match r.migrateListed store bins batch with
    | (r, .error e) => (r, .error e)
    | (r, .ok k) =>
      let (r, rest) := r.migrateBatches store bins batches
      (r, rest.map (k + ·))

/-- How many of the listed particles change their bin. -/
def changed (store : Store α) (bins : Nat → Int) (places : List Nat) : Nat :=
  places.countP fun i => decide ((store.particle i).bin ≠ bins i)

/-- One batch succeeds and leaves the tables of the particles in their new bins. -/
theorem Counts.migrateListed (h : r.Counts store) (hf : ∀ p ∈ store, p.Fits n)
    (hp : Reassigns n store bins places) :
    ∃ r', r.migrateListed store bins places = (r', .ok (changed store bins places)) ∧
      r'.Counts (store.rebin bins places) ∧ r'.active = r.active := by
  let turn (i : Nat) : Turn α := ⟨i, store.particle i, ⟨bins i, 0⟩⟩
  have hplaces : (places.map turn).map (·.place) = places := by
    rw [List.map_map]
    exact List.map_id places
  have hbins : (places.map turn).map (·.next.bin) = places.map bins := by
    rw [List.map_map]
    rfl
  have hmoves : Move.ofRows (places.map fun i => (store.particle i).kind)
      (places.map fun i => (store.particle i).bin) (places.map bins) =
        (places.map turn).map Turn.move := by
    rw [Move.ofRows_map, List.map_map]
    rfl
  obtain ⟨r', k, hok, hcounts, hactive⟩ :=
    h.migrate (places.map turn) (by rw [hplaces]; exact hp.nodup)
    (List.forall_mem_map.2 fun i hi => hp.getElem?_particle hi)
    (List.forall_mem_map.2 fun i hi => by
      have hfits := hf _ (Array.mem_of_getElem? (hp.getElem?_particle hi))
      exact ⟨⟨hfits.1, hfits.2.1⟩, hp.hasBin i hi, hfits.2.2⟩)
  have hk : k = changed store bins places := by
    rw [eq_countP_of_migrate hok, List.map_map, List.countP_map]
    rfl
  rw [Registry.migrateListed, migrateRows_eq _ (by simp) (by simp), hmoves, hok, hk]
  rw [hplaces, hbins] at hcounts
  exact ⟨r', rfl, hcounts, hactive⟩

theorem migrateListed_congr (r : Registry n) (bins : Nat → Int)
    (h : ∀ i ∈ places, current.particle i = store.particle i) :
    r.migrateListed store bins places = r.migrateListed current bins places := by
  rw [migrateListed, migrateListed,
    List.map_congr_left fun i hi => (congrArg Particle.kind (h i hi)).symm,
    List.map_congr_left fun i hi => (congrArg Particle.bin (h i hi)).symm]

theorem changed_congr (bins : Nat → Int) (h : ∀ i ∈ places, current.particle i = store.particle i) :
    changed store bins places = changed current bins places := by
  apply List.countP_congr
  intro i hi
  rw [h i hi]

/-- Batches are cut from a list made for `store`; the earlier of them have moved other particles
of `current`. -/
theorem Counts.migrateBatches {batches : List (List Nat)} (h : r.Counts current)
    (hf : ∀ p ∈ current, p.Fits n) (hp : Reassigns n store bins batches.flatten)
    (hs : ∀ i ∈ batches.flatten, current[i]? = store[i]?) :
    ∃ r', r.migrateBatches store bins batches = (r', .ok (changed store bins batches.flatten)) ∧
      r'.Counts (current.rebin bins batches.flatten) ∧ r'.active = r.active := by
  induction batches generalizing r current with
  | nil => exact ⟨r, rfl, h, rfl⟩
  | cons batch batches ih =>
    rw [List.flatten_cons] at hp hs ⊢
    have hsame : ∀ i ∈ batch, current.particle i = store.particle i := by
      intro i hi
      rw [Store.particle, Store.particle, hs i (List.mem_append_left _ hi)]
    have hbatch : Reassigns n current bins batch :=
      hp.left.of_getElem? fun i hi => hs i (List.mem_append_left _ hi)
    obtain ⟨r₁, hr₁, hcounts₁, hactive₁⟩ := h.migrateListed hf hbatch
    have hrest : ∀ i ∈ batches.flatten, (current.rebin bins batch)[i]? = store[i]? := by
      intro i hi
      have hnot : i ∉ batch := fun hb => (List.nodup_append.1 hp.nodup).2.2 i hb i hi rfl
      rw [Store.getElem?_rebin current bins hbatch.nodup, if_neg hnot]
      exact hs i (List.mem_append_right _ hi)
    obtain ⟨r₂, hr₂, hcounts₂, hactive₂⟩ := ih hcounts₁ (hbatch.fits_rebin hf) hp.right hrest
    rw [← Store.rebin_append] at hcounts₂
    have hsplit : changed store bins (batch ++ batches.flatten) =
        changed current bins batch + changed store bins batches.flatten := by
      rw [← changed_congr bins hsame]
      exact List.countP_append
    have hbatches : r.migrateBatches store bins (batch :: batches) =
        (r₂, .ok (changed store bins (batch ++ batches.flatten))) := by
      simp only [Registry.migrateBatches, migrateListed_congr r bins hsame, hr₁, hr₂,
        Except.map, hsplit]
    exact ⟨r₂, hbatches, hcounts₂, hactive₂.trans hactive₁⟩

end Batches

section Tables

variable {r : Registry n} {ms : List Move}

/-- The tables of the kinds are not negative and add up to the total. -/
structure IsSummed (r : Registry n) : Prop where
  nonneg : ∀ (k : Fin 6) (b : Fin n), 0 ≤ (r.byKind.get k).get b
  sum_eq : (Vector.ofFn fun b : Fin n => sum (r.byKind.toList.map (·.get b))) = r.count

theorem sum_nonneg {is : List Int} (h : ∀ i ∈ is, 0 ≤ i) : 0 ≤ sum is := by
  induction is with
  | nil => exact Int.le_refl 0
  | cons i is ih =>
    have hi := h i List.mem_cons_self
    have his := ih fun j hj => h j (List.mem_cons_of_mem i hj)
    rw [sum_cons]
    omega

theorem map_get_toList (rows : Vector (Vector Int n) 6) (b : Fin n) :
    rows.toList.map (·.get b) = (List.finRange 6).map fun k => (rows.get k).get b := by
  apply List.ext_getElem
  · simp
  · intro k hk hk'
    simp [Vector.get]
    rfl

theorem sum_gain_kind (hk : ∀ m ∈ ms, Kind.Exists m.kind) (b : Int) :
    sum ((List.range 6).map fun k : Nat => Move.gain (ms.filter fun m => decide (m.kind = k)) b) =
      Move.gain ms b := by
  have htarget := sum_countP ms (fun m => decide (m.target = b)) (·.kind) (m := 6) hk
  have hsource := sum_countP ms (fun m => decide (m.source = b)) (·.kind) (m := 6) hk
  have hadd := sum_map_add (List.range 6)
    (fun k : Nat => Move.gain (ms.filter fun m => decide (m.kind = k)) b)
    fun k : Nat => ((ms.countP fun m => decide (m.source = b) && m.kind == (k : Int) : Nat) : Int)
  have hrow (k : Nat) : Move.gain (ms.filter fun m => decide (m.kind = k)) b +
      ((ms.countP fun m => decide (m.source = b) && m.kind == (k : Int) : Nat) : Int) =
        (ms.countP fun m => decide (m.target = b) && m.kind == (k : Int) : Nat) := by
    rw [Move.gain, List.countP_filter, List.countP_filter]
    exact Int.sub_add_cancel _ _
  simp only [hrow, htarget, hsource] at hadd
  rw [Move.gain]
  omega

theorem IsSummed.moved_eq (h : r.IsSummed) (hk : ∀ m ∈ ms, Kind.Exists m.kind) {b : Nat}
    (hb : b < n) : (moved r.count ms)[b] = sum ((List.finRange 6).map fun k : Fin 6 =>
      (r.byKind.get k)[b] + Move.gain (ms.filter fun m => decide (m.kind = k.val)) b) := by
  have hgain : (List.finRange 6).map (fun k : Fin 6 =>
      Move.gain (ms.filter fun m => decide (m.kind = k.val)) b) = (List.range 6).map fun k : Nat =>
        Move.gain (ms.filter fun m => decide (m.kind = k)) b := by
    rw [← List.map_coe_finRange_eq_range, List.map_map]
    rfl
  rw [getElem_moved r.count ms hb, sum_map_add, hgain, sum_gain_kind hk, ← h.sum_eq,
    Vector.getElem_ofFn, map_get_toList]
  rfl

/-- The particles of a kind in a bin after moves. -/
def cellAfter (r : Registry n) (ms : List Move) (kind : Fin 6) (bin : Fin n) : Int :=
  (r.byKind.get kind).get bin + Move.arrivals ms kind.val bin.val -
    Move.departures ms kind.val bin.val

theorem cellAfter_eq (r : Registry n) (ms : List Move) (k : Fin 6) (b : Fin n) :
    r.cellAfter ms k b =
      (r.byKind.get k)[b] + Move.gain (ms.filter fun m => decide (m.kind = k.val)) b.val := by
  rw [cellAfter, Move.gain_filter_kind, Int.add_sub_assoc]
  rfl

theorem cellAfter_filter_changes (r : Registry n) (ms : List Move) (k : Fin 6) (b : Fin n) :
    r.cellAfter (ms.filter fun m => decide m.Changes) k b = r.cellAfter ms k b := by
  rw [cellAfter_eq, cellAfter_eq, List.filter_filter]
  simp only [Bool.and_comm (decide (_ = _))]
  rw [← List.filter_filter, Move.gain_filter_changes]

/-- The total stays no less than zero if the tables of the kinds do. -/
theorem IsSummed.isCount_iff (h : r.IsSummed) (hk : ∀ m ∈ ms, Kind.Exists m.kind) :
    isCount { r with
      count := moved r.count ms
      byKind := Vector.ofFn fun k =>
        moved (r.byKind.get k) (ms.filter fun m => decide (m.kind = k.val)) } ↔
      ∀ k b, 0 ≤ r.cellAfter ms k b := by
  rw [isCount, Bool.and_eq_true, Vector.all_eq_true, Vector.all_eq_true]
  constructor
  · intro hall k b
    have hrow := hall.2 k.val k.isLt
    rw [Vector.all_eq_true] at hrow
    have hcell := of_decide_eq_true (hrow b.val b.isLt)
    rw [cellAfter_eq]
    simpa [getElem_moved] using hcell
  · intro hcells
    constructor
    · -- the total of a bin is the sum of its kinds, before the moves and after them
      intro b hb
      apply decide_eq_true
      rw [h.moved_eq hk hb]
      apply sum_nonneg
      intro i hi
      obtain ⟨k, -, rfl⟩ := List.mem_map.1 hi
      have hcell := hcells k ⟨b, hb⟩
      rwa [cellAfter_eq] at hcell
    · intro k hk'
      rw [Vector.all_eq_true]
      intro b hb
      apply decide_eq_true
      have hcell := hcells ⟨k, hk'⟩ ⟨b, hb⟩
      rw [cellAfter_eq] at hcell
      simpa [getElem_moved] using hcell

theorem IsSummed.migrate_cases (h : r.IsSummed)
    (hin : ∀ m ∈ ms, r.HasBin m.source ∧ r.HasBin m.target ∧ Kind.Exists m.kind) :
    ((∀ k b, 0 ≤ r.cellAfter ms k b) ∧
        (r.migrate ms).2 = .ok (ms.countP fun m => decide m.Changes)) ∨
      (∃ k b, r.cellAfter ms k b < 0) ∧ (r.migrate ms).2 = .error .negativeOccupancy := by
  have hin' : ∀ m ∈ ms.filter fun m => decide m.Changes,
      r.HasBin m.source ∧ r.HasBin m.target ∧ Kind.Exists m.kind :=
    fun m hm => hin m (List.mem_filter.1 hm).1
  rw [r.migrate_of_inside rfl hin', List.countP_eq_length_filter]
  simp only [← r.cellAfter_filter_changes ms]
  by_cases he : (ms.filter fun m => decide m.Changes).isEmpty
  · left
    rw [if_pos he, List.isEmpty_iff.1 he]
    exact ⟨fun k b => by simpa [cellAfter, Move.arrivals, Move.departures] using h.nonneg k b, rfl⟩
  · have hcount := h.isCount_iff fun m hm => (hin' m hm).2.2
    rw [if_neg he]
    by_cases hcells : ∀ k b, 0 ≤ r.cellAfter (ms.filter fun m => decide m.Changes) k b
    · left
      rw [if_pos (hcount.2 hcells)]
      exact ⟨hcells, rfl⟩
    · right
      rw [if_neg fun hc => hcells (hcount.1 hc)]
      simp only [not_forall, Int.not_le] at hcells
      exact ⟨hcells, rfl⟩

end Tables

/-- Rows of one length, of kinds and bins that the tables have. -/
structure RowsFit (n : Nat) (kinds sources targets : List Int) : Prop where
  length_sources : sources.length = kinds.length
  length_targets : targets.length = kinds.length
  kinds_exist : ∀ k ∈ kinds, Kind.Exists k
  sources_exist : ∀ b ∈ sources, 0 ≤ b ∧ b < n
  targets_exist : ∀ b ∈ targets, 0 ≤ b ∧ b < n

theorem RowsFit.inside {kinds sources targets : List Int} (h : RowsFit n kinds sources targets)
    (r : Registry n) : ∀ m ∈ Move.ofRows kinds sources targets,
      r.HasBin m.source ∧ r.HasBin m.target ∧ Kind.Exists m.kind := by
  intro m hm
  obtain ⟨hk, hway⟩ := Move.mem_ofRows hm
  obtain ⟨hs, ht⟩ := List.of_mem_zip hway
  exact ⟨h.sources_exist _ hs, h.targets_exist _ ht, h.kinds_exist _ hk⟩

/-- Tables that count the particles stay what a count anew gives, however the moves are ordered and
cut into batches; of tables that only add up, moves are refused if and only if they leave a bin with
fewer than no particles of a kind. -/
theorem migration_is_recount [Scalar α] (n : Nat) :
    (∀ (r : Registry n) (store : Store α) (due : List Nat) (bins : Nat → Int) (places : List Nat),
      r.recount store = (r, .ok due) → Reassigns n store bins places →
        ∃ r', r.recount (store.rebin bins places) = (r', .ok (r'.due (store.rebin bins places))) ∧
          (∀ listed : List Nat, listed.Perm places →
            r.migrateListed store bins listed = (r', .ok (changed store bins places))) ∧
          ∀ batches : List (List Nat), batches.flatten.Perm places →
            r.migrateBatches store bins batches = (r', .ok (changed store bins places))) ∧
      ∀ (r : Registry n) (kinds sources targets : List Int), r.IsSummed →
        RowsFit n kinds sources targets →
          ((r.migrateRows kinds sources targets).2 = .error .negativeOccupancy ↔
            ∃ k b, r.cellAfter (Move.ofRows kinds sources targets) k b < 0) ∧
          ((∀ k b, 0 ≤ r.cellAfter (Move.ofRows kinds sources targets) k b) →
            (r.migrateRows kinds sources targets).2 =
              .ok ((Move.ofRows kinds sources targets).countP fun m => decide m.Changes)) := by
  constructor
  · intro r store due bins places hrecount hplaces
    obtain ⟨hcounts, hfits⟩ := Counts.of_recount hrecount
    obtain ⟨r', hr', hcounts', hactive⟩ := hcounts.migrateListed hfits hplaces
    -- in every order and cut the tables count the same store, and its counts are unique
    refine ⟨r', hcounts'.recount_eq hactive (hplaces.fits_rebin hfits), ?_, ?_⟩
    · intro listed hperm
      obtain ⟨r₁, hr₁, hcounts₁, hactive₁⟩ := hcounts.migrateListed hfits (hplaces.perm hperm)
      rw [store.rebin_perm bins hplaces.nodup hperm] at hcounts₁
      rw [hr₁, hcounts'.unique hcounts₁ (hactive₁.trans hactive.symm), changed, hperm.countP_eq]
      rfl
    · intro batches hperm
      obtain ⟨r₁, hr₁, hcounts₁, hactive₁⟩ :=
        hcounts.migrateBatches hfits (hplaces.perm hperm) fun _ _ => rfl
      rw [store.rebin_perm bins hplaces.nodup hperm] at hcounts₁
      rw [hr₁, hcounts'.unique hcounts₁ (hactive₁.trans hactive.symm), changed, hperm.countP_eq]
      rfl
  · intro r kinds sources targets hsummed hrows
    rw [r.migrateRows_eq hrows.length_sources hrows.length_targets]
    cases hsummed.migrate_cases (hrows.inside r) with
    | inl hok =>
      obtain ⟨hcells, hmigrate⟩ := hok
      rw [hmigrate]
      refine ⟨⟨fun he => ?_, ?_⟩, fun _ => rfl⟩
      · cases he
      · rintro ⟨k, b, hneg⟩
        exact absurd (hcells k b) (Int.not_le.2 hneg)
    | inr herror =>
      obtain ⟨⟨k, b, hneg⟩, hmigrate⟩ := herror
      rw [hmigrate]
      refine ⟨⟨fun _ => ⟨k, b, hneg⟩, fun _ => rfl⟩, fun hcells => ?_⟩
      exact absurd (hcells k b) (Int.not_le.2 hneg)

section Sample

def sampleStore : Store Rat :=
  #[{ (default : Particle Rat) with kind := 0, bin := 1 },
    { (default : Particle Rat) with kind := 1, bin := 2 },
    { (default : Particle Rat) with kind := 1, bin := 2 }]

def sampleTables : Registry 4 := ((empty 4).recount sampleStore).1

def sampleBins (i : Nat) : Int := if i = 0 then 2 else 1

theorem migration_is_recount_sample :
    (∃ r', sampleTables.recount (sampleStore.rebin sampleBins [2, 0]) =
        (r', .ok (r'.due (sampleStore.rebin sampleBins [2, 0]))) ∧
      sampleTables.migrateListed sampleStore sampleBins [0, 2] = (r', .ok 2) ∧
      sampleTables.migrateBatches sampleStore sampleBins [[0], [], [2]] = (r', .ok 2)) ∧
    (sampleTables.migrateRows [0, 0] [1, 1] [2, 3]).2 = .error .negativeOccupancy ∧
    (sampleTables.migrateRows [0, 1, 1] [1, 2, 3] [2, 3, 3]).2 = .ok 2 := by
  obtain ⟨hbatches, hrows⟩ := migration_is_recount (α := Rat) 4
  constructor
  · obtain ⟨r', hrecount, hlisted, hbatches⟩ :=
      hbatches sampleTables sampleStore [0, 1, 2] sampleBins [2, 0] (by decide +kernel)
        ⟨by decide, by decide, by decide⟩
    exact ⟨r', hrecount, hlisted [0, 2] (by decide), hbatches [[0], [], [2]] (by decide)⟩
  · have hsummed : sampleTables.IsSummed := ⟨by decide +kernel, by decide +kernel⟩
    have hrefused := (hrows sampleTables [0, 0] [1, 1] [2, 3] hsummed
      ⟨rfl, rfl, by decide, by decide, by decide⟩).1
    have hdone := (hrows sampleTables [0, 1, 1] [1, 2, 3] [2, 3, 3] hsummed
      ⟨rfl, rfl, by decide, by decide, by decide⟩).2
    exact ⟨hrefused.2 ⟨0, 1, by decide +kernel⟩, hdone (by decide +kernel)⟩

end Sample

end Registry

end BlockStep
