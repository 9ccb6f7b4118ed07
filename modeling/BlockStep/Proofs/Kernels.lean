import BlockStep.Proofs.GasBounds

namespace BlockStep

variable {α ι : Type} [Scalar α]

/-- Two steps that end with one result and one state. -/
def Act.Same {σ β : Type} (x y : Act α σ β) (s : σ) : Prop :=
  ∃ b s', x.Does s b s' ∧ y.Does s b s'

namespace Store

/-- Positions in a store, each listed once. -/
structure Distinct (s : Store α) (places : List Nat) : Prop where
  nodup : places.Nodup
  lt_size : ∀ i ∈ places, i < s.size

variable {β γ : Type} {s s' : Store α} {es es' : List ι} {place : ι → Nat}

omit [Scalar α] in
theorem Distinct.of_sublist {places places' : List Nat} (h : s.Distinct places)
    (hsub : places'.Sublist places) (hsize : s'.size = s.size) : s'.Distinct places' where
  nodup := h.nodup.sublist hsub
  lt_size i hi := hsize ▸ h.lt_size i (hsub.subset hi)

theorem Distinct.getElem? (h : s.Distinct (es.map place)) {e : ι} (he : e ∈ es) :
    s[place e]? = some (s.particle (place e)) := by
  have hp := Array.getElem?_eq_getElem (h.lt_size (place e) (List.mem_map_of_mem he))
  rw [particle_of_getElem? hp, hp]

omit [Scalar α] in
theorem scatter_perm {f : β → Particle α → Particle α} {g : γ → Particle α → Particle α}
    {v : ι → β} {v' : ι → γ} (hn : (es.map place).Nodup) (hp : es'.Perm es)
    (hv : ∀ e ∈ es, ∀ p, s[place e]? = some p → f (v e) p = g (v' e) p) :
    s.scatter f (es'.map place) (es'.map v) = s.scatter g (es.map place) (es.map v') := by
  have hplaces := hp.map place
  apply Array.ext_getElem?
  intro i
  by_cases hi : i ∈ es.map place
  · obtain ⟨e, he, rfl⟩ := List.mem_map.1 hi
    rw [getElem?_scatter_entry s f v (hplaces.nodup_iff.2 hn) (hp.mem_iff.2 he),
      getElem?_scatter_entry s g v' hn he]
    exact Option.map_congr fun p => hv e he p
  · rw [getElem?_scatter_of_not_mem s g _ hi,
      getElem?_scatter_of_not_mem s f _ fun hmem => hi (hplaces.mem_iff.1 hmem)]

omit [Scalar α] in
theorem places_of_inside {indices : List Int} (h : ∀ i ∈ indices, 0 ≤ i ∧ i < s.size) :
    s.places indices = .ok (indices.map Int.toNat) := by
  have hall : indices.mapM (position? s.size) = some (indices.map Int.toNat) := by
    induction indices with
    | nil => rfl
    | cons i is ih =>
      have hfirst : position? s.size i = some i.toNat := if_pos (h i List.mem_cons_self)
      rw [List.mapM_cons, hfirst, ih fun j hj => h j (List.mem_cons_of_mem i hj)]
      rfl
  rw [places, hall]

omit [Scalar α] in
theorem distinct_of_inside {indices : List Int} (hn : indices.Nodup)
    (h : ∀ i ∈ indices, 0 ≤ i ∧ i < s.size) : s.Distinct (indices.map Int.toNat) where
  nodup := by
    apply hn.map_on
    intro i hi j hj heq
    have hi := (h i hi).1
    have hj := (h j hj).1
    omega
  lt_size i hi := by
    obtain ⟨j, hj, rfl⟩ := List.mem_map.1 hi
    have := h j hj
    omega

end Store

namespace Kick

variable {s : Store α} {es es' : List ι} {place : ι → Nat}

theorem gravityAtOnce_entries (s : Store α) (es : List ι) (place : ι → Nat) (factor : ι → α) :
    gravityAtOnce s (es.map place) (es.map factor) =
      s.scatter (fun v p => withVel p v) (es.map place) (es.map fun e =>
        (s.particle (place e)).vel + (s.particle (place e)).gravAccel.scale (factor e)) := by
  rw [gravityAtOnce, Store.gather_eq, List.map_map, List.zipWith_map, List.zipWith_self]
  rfl

theorem gravityInTurn_perm (factor : ι → α) (hn : (es.map place).Nodup) (hp : es'.Perm es) :
    gravityInTurn s (es'.map place) (es'.map factor) =
      gravityAtOnce s (es.map place) (es.map factor) := by
  rw [gravityAtOnce_entries]
  apply Store.scatter_perm (f := fun c p => withVel p (p.vel + p.gravAccel.scale c)) hn hp
  intro e _ p hpart
  rw [Store.particle_of_getElem? hpart]

theorem gasAtOnce_entries (l : GasLimits α) (s : Store α) (es : List ι) (place : ι → Nat)
    (weight : ι → GasKick α) :
    gasAtOnce l s (es.map place) (es.map weight) =
      (s.scatter withGas (es.map place)
          (es.map fun e => gasState l (weight e) (s.particle (place e))),
        es.countP fun e => decide (IsHeld l (weight e) (s.particle (place e)))) := by
  simp only [gasAtOnce, Store.gather_eq, velColumn, energyColumn, belowColumn, List.map_map,
    List.zipWith_map, List.zipWith_self, List.zip_eq_zipWith, List.countP_map]
  rfl

def gasTurn (l : GasLimits α) (r : Store α × Nat) (e : Nat × GasKick α) : Store α × Nat :=
  match r.1[e.1]? with
  | some p =>
    let q := gasOne l e.2 p
    (r.1.set! e.1 q.1, if q.2 then r.2 + 1 else r.2)
  | none => r

theorem gasInTurn_eq_foldl (l : GasLimits α) (s : Store α) (places : List Nat)
    (ks : List (GasKick α)) :
    gasInTurn l s places ks = (places.zip ks).foldl (gasTurn l) (s, 0) := rfl

theorem gasTurn_of_some {l : GasLimits α} {i n : Nat} {k : GasKick α} {p : Particle α}
    (hp : s[i]? = some p) :
    gasTurn l (s, n) (i, k) =
      (s.set! i (gasOne l k p).1, if (gasOne l k p).2 then n + 1 else n) := by
  simp only [gasTurn, hp]

/-- A turn leaves the particles of all later turns as they were, so that each adds to the count what
it would have added first. -/
theorem foldl_gasTurn_snd (l : GasLimits α) (weight : ι → GasKick α)
    (h : s.Distinct (es.map place)) (n : Nat) :
    (((es.map place).zip (es.map weight)).foldl (gasTurn l) (s, n)).2 =
      n + es.countP fun e => (gasOne l (weight e) (s.particle (place e))).2 := by
  induction es generalizing s n with
  | nil => rfl
  | cons e es ih =>
    have hpart := h.getElem? List.mem_cons_self
    obtain ⟨hnot, -⟩ := List.nodup_cons.1 h.nodup
    generalize hq : (gasOne l (weight e) (s.particle (place e))).1 = q
    have hrest : Store.Distinct (s.set! (place e) q) (es.map place) :=
      h.of_sublist (List.sublist_cons_self _ _) (by simp)
    have hkept : ∀ e' ∈ es, (s.set! (place e) q)[place e']? = s[place e']? := by
      intro e' he'
      have hne : place e ≠ place e' := fun heq => hnot (heq ▸ List.mem_map_of_mem he')
      rw [Array.set!_eq_setIfInBounds, Array.getElem?_setIfInBounds, if_neg hne]
    have hcount : (es.countP fun e' =>
        (gasOne l (weight e') (Store.particle (s.set! (place e) q) (place e'))).2) =
          es.countP fun e' => (gasOne l (weight e') (s.particle (place e'))).2 := by
      apply List.countP_congr
      intro e' he'
      rw [Store.particle, hkept e' he', ← Store.particle]
    rw [List.map_cons, List.map_cons, List.zip_cons_cons, List.foldl_cons,
      gasTurn_of_some hpart, hq, ih hrest, hcount, List.countP_cons]
    split <;> omega

theorem gasInTurn_snd (l : GasLimits α) (weight : ι → GasKick α) (h : s.Distinct (es.map place)) :
    (gasInTurn l s (es.map place) (es.map weight)).2 =
      es.countP fun e => (gasOne l (weight e) (s.particle (place e))).2 := by
  rw [gasInTurn_eq_foldl, foldl_gasTurn_snd l weight h, Nat.zero_add]

theorem gasInTurn_perm [Scalar.IsCommutative α] (l : GasLimits α) (weight : ι → GasKick α)
    (h : s.Distinct (es.map place)) (hp : es'.Perm es) :
    gasInTurn l s (es'.map place) (es'.map weight) =
      gasAtOnce l s (es.map place) (es.map weight) := by
  have hplaces := hp.map place
  have h' : s.Distinct (es'.map place) :=
    ⟨hplaces.nodup_iff.2 h.nodup, fun i hi => h.lt_size i (hplaces.mem_iff.1 hi)⟩
  have hstore : (gasInTurn l s (es'.map place) (es'.map weight)).1 = s.scatter withGas
      (es.map place) (es.map fun e => gasState l (weight e) (s.particle (place e))) := by
    rw [gasInTurn_fst]
    apply Store.scatter_perm h.nodup hp
    intro e _ p hpart
    rw [gasOne_eq, Store.particle_of_getElem? hpart]
  have hcount : (gasInTurn l s (es'.map place) (es'.map weight)).2 =
      es.countP fun e => decide (IsHeld l (weight e) (s.particle (place e))) := by
    rw [gasInTurn_snd l weight h', hp.countP_eq]
    simp only [gasOne_eq]
  rw [gasAtOnce_entries]
  exact Prod.ext hstore hcount

end Kick

namespace Kicker

variable {r : Kicker α} {t : TimeFactors α} {s : Store α} {ks ks' : List Stretch}

/-- A kicker whose kernels take particles in turn, or all at once. -/
def turned (r : Kicker α) (inTurn : Bool) : Kicker α := { r with inTurn := inTurn }

omit [Scalar α] in
theorem Lists.distinct (h : Lists s ks) : s.Distinct (ks.map (·.place)) where
  nodup := h.nodup
  lt_size i hi := by
    obtain ⟨k, hk, rfl⟩ := List.mem_map.1 hi
    exact h.lt_size k hk

omit [Scalar α] in
theorem lists_zip {places : List Nat} (h : s.Distinct places) (ts us : List Int) :
    Lists s ((places.zip (ts.zip us)).map fun e => ⟨e.1, e.2.1, e.2.2⟩) := by
  have hsub : (((places.zip (ts.zip us)).map fun e => (⟨e.1, e.2.1, e.2.2⟩ : Stretch)).map
      (·.place)).Sublist places := by
    rw [List.map_map]
    change ((places.zip (ts.zip us)).map Prod.fst).Sublist places
    rw [List.zip_eq_zip_take_min, List.map_fst_zip (by simp)]
    exact List.take_sublist _ _
  have hplaces := h.of_sublist hsub rfl
  exact ⟨hplaces.nodup, fun k hk => hplaces.lt_size k.place (List.mem_map_of_mem hk)⟩

theorem kicked_perm [Scalar.IsCommutative α] (h : Lists s ks) (hp : ks'.Perm ks) :
    (r.turned true).kicked t s ks' = (r.turned false).kicked t s ks := by
  have hgravity := Kick.gravityInTurn_perm (s := s)
    (fun k => r.source.factor k.start k.stop .gravity) h.nodup hp
  have hsize : (Kick.gravityAtOnce s (ks.map (·.place))
      (ks.map fun k => r.source.factor k.start k.stop .gravity)).size = s.size := by
    rw [Kick.gravityAtOnce_entries, Store.size_scatter]
  have hgas := h.distinct.of_sublist
    (List.Sublist.map (·.place) (List.filter_sublist (p := fun k => (particle s k).isGas))) hsize
  have hturn := Kick.gasInTurn_perm (Kick.limits r.gas t) (r.gasKick s) hgas
    (hp.filter fun k => (particle s k).isGas)
  change Kick.gasInTurn _ (Kick.gravityInTurn s _ _) _ _ =
    Kick.gasAtOnce _ (Kick.gravityAtOnce s _ _) _ _
  exact (congrArg (fun s' => Kick.gasInTurn _ s' _ _) hgravity).trans hturn

omit [Scalar α] in
theorem Lists.of_size {s' : Store α} (h : Lists s ks) (hsize : s'.size = s.size) : Lists s' ks where
  nodup := h.nodup
  lt_size k hk := hsize ▸ h.lt_size k hk

theorem ends_noteAll_size (r : Kicker α) (s : Store α) (ks : List Stretch) :
    (r.noteAll ks).Ends (fun _ => True) s fun _ s' => s'.size = s.size := by
  rw [noteAll]
  split
  · rw [Act.ends_bind, Act.ends_get]
    cases gap? s ks with
    | some e => exact Act.ends_fail.2 trivial
    | none => exact Act.ends_modify.2 (Store.size_scatter _ _ _ _)
  · exact Act.ends_pure.2 rfl

theorem does_kickAll (r : Kicker α) (t : TimeFactors α) (s : Store α) (ks : List Stretch) :
    (r.kickAll t ks).Does s (.ok ()) (r.kicked t s ks).1 := by
  apply (Act.does_get.2 ⟨rfl, rfl⟩ : (Act.get : Act α (Store α) (Store α)).Does s (.ok s) s).bind
  exact Act.does_bind_ok.2 ⟨(), _, Act.does_set.2 ⟨rfl, rfl⟩, Act.does_tell.2 ⟨rfl, rfl⟩⟩

theorem same_shortRange [Scalar.IsCommutative α] (r : Kicker α) (t : TimeFactors α)
    (h : Lists s ks) :
    Act.Same ((r.turned true).shortRange t ks) ((r.turned false).shortRange t ks) s := by
  by_cases hne : ks = []
  · rw [hne]
    exact ⟨.ok (), s, Act.does_pure.2 ⟨rfl, rfl⟩, Act.does_pure.2 ⟨rfl, rfl⟩⟩
  · rw [shortRange_eq hne, shortRange_eq hne]
    -- the check and the note come first, and do not depend on the kernels
    change Act.Same (r.noteAll ks >>= fun _ => (r.turned true).kickAll t ks)
      (r.noteAll ks >>= fun _ => (r.turned false).kickAll t ks) s
    rcases r.ends_noteAll_size s ks with ⟨u, s₁, hnote, hsize⟩ | ⟨e, s₁, hnote, -⟩
    · have hkick := (r.turned true).does_kickAll t s₁ ks
      rw [kicked_perm (h.of_size hsize) (List.Perm.refl ks)] at hkick
      exact ⟨_, _, hnote.bind hkick, hnote.bind ((r.turned false).does_kickAll t s₁ ks)⟩
    · exact ⟨_, _, Act.does_bind_error.2 (.inl hnote), Act.does_bind_error.2 (.inl hnote)⟩

theorem same_shortRangeOf [Scalar.IsCommutative α] (r : Kicker α) (t : TimeFactors α)
    {indices : List Int} (hn : indices.Nodup) (h : ∀ i ∈ indices, 0 ≤ i ∧ i < s.size)
    (starts stops : Shaped Int) :
    Act.Same ((r.turned true).shortRangeOf t indices starts stops)
      ((r.turned false).shortRangeOf t indices starts stops) s := by
  rw [shortRangeOf, shortRangeOf]
  split
  · exact ⟨.ok (), s, Act.does_pure.2 ⟨rfl, rfl⟩, Act.does_pure.2 ⟨rfl, rfl⟩⟩
  · split
    next ts us _ _ =>
      have hlists := lists_zip (Store.distinct_of_inside hn h) ts us
      obtain ⟨b, s', hturn, honce⟩ := same_shortRange r t hlists
      have hget : (Act.get : Act α (Store α) (Store α)).Does s (.ok s) s :=
        Act.does_get.2 ⟨rfl, rfl⟩
      have hplaces : (Act.lift (s.places indices) : Act α (Store α) (List Nat)).Does s
          (.ok (indices.map Int.toNat)) s := Act.does_lift.2 ⟨(Store.places_of_inside h).symm, rfl⟩
      exact ⟨b, s', hget.bind (hplaces.bind hturn), hget.bind (hplaces.bind honce)⟩
    · exact ⟨.error .shapesDiffer, s, Act.does_fail.2 ⟨rfl, rfl⟩, Act.does_fail.2 ⟨rfl, rfl⟩⟩

/-- The kernels that take particles in turn, in any order, do what those do that take all particles
at once, and so a kick ends the same with either. -/
theorem kernels_agree [Scalar.IsCommutative α] :
    (∀ (s : Store α) (es es' : List (Nat × α)), s.Distinct (es.map (·.1)) → es'.Perm es →
      Kick.gravityInTurn s (es'.map (·.1)) (es'.map (·.2)) =
        Kick.gravityAtOnce s (es.map (·.1)) (es.map (·.2))) ∧
    (∀ (l : GasLimits α) (s : Store α) (es es' : List (Nat × GasKick α)),
      s.Distinct (es.map (·.1)) → es'.Perm es →
        Kick.gasInTurn l s (es'.map (·.1)) (es'.map (·.2)) =
          Kick.gasAtOnce l s (es.map (·.1)) (es.map (·.2))) ∧
    (∀ (r : Kicker α) (t : TimeFactors α) (s : Store α) (ks ks' : List Stretch), Lists s ks →
      ks'.Perm ks → (r.turned true).kicked t s ks' = (r.turned false).kicked t s ks) ∧
    ∀ (r : Kicker α) (t : TimeFactors α) (s : Store α) (indices : List Int)
        (starts stops : Shaped Int),
      indices.Nodup → (∀ i ∈ indices, 0 ≤ i ∧ i < s.size) →
        Act.Same ((r.turned true).shortRangeOf t indices starts stops)
          ((r.turned false).shortRangeOf t indices starts stops) s := by
  constructor
  · intro s es es' h hp
    exact Kick.gravityInTurn_perm (·.2) h.nodup hp
  constructor
  · intro l s es es' h hp
    exact Kick.gasInTurn_perm l (·.2) h hp
  constructor
  · intro r t s ks ks' h hp
    exact kicked_perm h hp
  · intro r t s indices starts stops hn h
    exact same_shortRangeOf r t hn h starts stops

section Sample

def sampleMix : Store Rat :=
  #[{ Sample.particle 0 with kind := 0, vel := ⟨30, 40, 0⟩, energy := 9, eomDensity := 1 },
    { Sample.particle 1 with
      kind := 0, hydroAccel := ⟨0, 1, 0⟩, energy := 2, energyRate := -3, eomDensity := 2 },
    Sample.particle 2]

def sampleGasLimits : GasLimits Rat := ⟨5, 6, 1, 1⟩

theorem kernels_agree_sample :
    Kick.gravityInTurn sampleMix [2, 0, 1] [7, 5, 6] =
        Kick.gravityAtOnce sampleMix [0, 1, 2] [5, 6, 7] ∧
      Kick.gasInTurn sampleGasLimits sampleMix [1, 0] [⟨1, 1, 1⟩, ⟨2, 1, 1⟩] =
        Kick.gasAtOnce sampleGasLimits sampleMix [0, 1] [⟨2, 1, 1⟩, ⟨1, 1, 1⟩] ∧
      (Kick.gasAtOnce sampleGasLimits sampleMix [0, 1] [⟨2, 1, 1⟩, ⟨1, 1, 1⟩]).2 = 1 ∧
      (Sample.setup.kicker.turned true).kicked ⟨1, 1, 1, 1⟩ sampleMix [⟨1, 0, 4⟩, ⟨0, 0, 4⟩] =
        (Sample.setup.kicker.turned false).kicked ⟨1, 1, 1, 1⟩ sampleMix [⟨0, 0, 4⟩, ⟨1, 0, 4⟩] ∧
      Act.Same
        ((Sample.setup.kicker.turned true).shortRangeOf ⟨1, 1, 1, 1⟩ [0, 2, 1] (.single 0)
          (.single 4))
        ((Sample.setup.kicker.turned false).shortRangeOf ⟨1, 1, 1, 1⟩ [0, 2, 1] (.single 0)
          (.single 4))
        sampleMix := by
  obtain ⟨hgravity, hgas, hkicked, hkick⟩ := kernels_agree (α := Rat)
  have hthree : sampleMix.Distinct [0, 1, 2] := ⟨by decide, by decide⟩
  have htwo : sampleMix.Distinct [0, 1] := ⟨by decide, by decide⟩
  constructor
  · exact hgravity sampleMix [(0, 5), (1, 6), (2, 7)] [(2, 7), (0, 5), (1, 6)] hthree (by decide)
  constructor
  · exact hgas sampleGasLimits sampleMix [(0, ⟨2, 1, 1⟩), (1, ⟨1, 1, 1⟩)]
      [(1, ⟨1, 1, 1⟩), (0, ⟨2, 1, 1⟩)] htwo (List.Perm.swap _ _ _)
  constructor
  · decide +kernel
  constructor
  · exact hkicked _ _ _ _ _ ⟨by decide, by decide⟩ (List.Perm.swap _ _ _)
  · exact hkick _ _ _ _ _ _ (by decide) (by decide)

/-- A particle that is listed twice is pushed twice in turn, and once at once. -/
example :
    (Kick.gravityInTurn #[{ Sample.particle 0 with gravAccel := ⟨1, 0, 0⟩ }] [0, 0] [1, 1])[0]?.map
      (·.vel) = some ⟨3, 0, 0⟩ ∧
    (Kick.gravityAtOnce #[{ Sample.particle 0 with gravAccel := ⟨1, 0, 0⟩ }] [0, 0] [1, 1])[0]?.map
      (·.vel) = some ⟨2, 0, 0⟩ := by decide +kernel

end Sample

end Kicker

end BlockStep
