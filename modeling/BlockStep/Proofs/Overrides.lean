import BlockStep.Alarm
import BlockStep.Override

namespace BlockStep

namespace Value

variable {d d' : Value} {p q : List String} {key : String}

def IsClosed : Value → Prop
  | null | map _ => False
  | _ => True

def Stops (d : Value) (p : List String) : Prop := ∃ v, d.get? p = some v ∧ v.IsClosed

def bare : Value → Value
  | map _ => map []
  | v => v

/-- The same document but for the order of the entries. -/
def Alike (d d' : Value) : Prop := ∀ p, (d.get? p).map bare = (d'.get? p).map bare

theorem isClosed_of_ne (hnull : d ≠ null) (hmap : ∀ es, d ≠ map es) : d.IsClosed := by
  cases d with
  | null => cases hnull rfl
  | map es => cases hmap es rfl
  | _ => trivial

theorem get?_cons_map (key : String) (p : List String) (es : Keyed Value) :
    (map es).get? (key :: p) = (Keyed.lookup key es).bind (get? p) := rfl

theorem get?_append (d : Value) (p q : List String) :
    d.get? (p ++ q) = (d.get? p).bind (get? q) := by
  induction p generalizing d with
  | nil => rfl
  | cons key p ih =>
    cases d with
    | map es =>
      rw [List.cons_append, get?_cons_map, get?_cons_map, Option.bind_assoc]
      exact Option.bind_congr fun v _ => ih v
    | _ => rfl

theorem get?_cons_of_ne (hmap : ∀ es, d ≠ map es) : d.get? (key :: p) = none := by
  cases d with
  | map es => cases hmap es rfl
  | _ => rfl

theorem stops_nil : d.Stops [] ↔ d.IsClosed := by
  simp [Stops, get?]

theorem not_stops_of_map {es : Keyed Value} (h : d.get? p = some (map es)) : ¬ d.Stops p := by
  rintro ⟨v, hv, hclosed⟩
  rw [h] at hv
  cases hv
  exact hclosed

theorem not_stops_cons (hmap : ∀ es, d ≠ map es) : ¬ d.Stops (key :: p) := by
  rintro ⟨v, hv, -⟩
  rw [get?_cons_of_ne hmap] at hv
  cases hv

end Value

namespace Override

open Value

/-- Neither path leads into what the other leads to. -/
def Apart (p q : List String) : Prop := ¬ p <+: q ∧ ¬ q <+: p

/-- What a document becomes in which a value is set at a path, read through all paths. -/
structure Sets (p : List String) (v : Value) (d d' : Value) : Prop where
  at_path : d'.get? p = some v
  above : ∀ q, q <+: p → q ≠ p → ∃ es, d'.get? q = some (.map es)
  beside : ∀ q, Apart p q → d'.get? q = d.get? q

def faultAt (item key : String) : List String → Fault
  | [] => .overrideTarget item
  | _ :: _ => .overrideTraverse item key

def Blocked (item : String) (p : List String) (d : Value) (e : Fault) : Prop :=
  ∃ q key rest, p = q ++ key :: rest ∧ d.Stops q ∧ e = faultAt item key rest

variable {item other key : String} {v w : Value} {p q : List String} {d d' : Value}
  {es : Keyed Value} {e : Fault}

theorem lookup_or_child (key : String) (es : Keyed Value) :
    Keyed.lookup key es = some (child key es) ∨
      (∀ v ∈ Keyed.lookup key es, v = .null) ∧ child key es = .map [] := by
  rw [child]
  split
  next h => simp [h]
  next h => simp [h]
  next h => exact .inl h

theorem child_ne_null : child key es ≠ .null := by
  rw [child]
  split
  next => nofun
  next => nofun
  next hnull _ => exact hnull

theorem get?_child (hq : q ≠ []) : (child key es).get? q = (Value.map es).get? (key :: q) := by
  obtain ⟨k, q, rfl⟩ := List.exists_cons_of_ne_nil hq
  rw [get?_cons_map key]
  rcases lookup_or_child key es with h | ⟨hnull, h⟩
  · rw [h]
    rfl
  · rw [h]
    cases hl : Keyed.lookup key es with
    | none => rfl
    | some v =>
      rw [hnull v hl]
      rfl

theorem not_stops_empty : ¬ (Value.map []).Stops q := by
  rintro ⟨v, hv, hclosed⟩
  cases q with
  | nil =>
    cases hv
    exact hclosed
  | cons k q => cases hv

theorem stops_child : (child key es).Stops q ↔ (Value.map es).Stops (key :: q) := by
  cases q with
  | cons k q => rw [Stops, get?_child (List.cons_ne_nil k q), Stops]
  | nil =>
    rcases lookup_or_child key es with h | ⟨hnull, h⟩
    · simp [Stops, get?, h]
    · rw [h]
      apply iff_of_false not_stops_empty
      rintro ⟨v, hv, hclosed⟩
      obtain ⟨w, hw, hwv⟩ := Option.bind_eq_some_iff.1 hv
      cases hwv
      rw [hnull v hw] at hclosed
      exact hclosed

theorem put_child (h : (child key es).Stops q) : Keyed.put key (child key es) es = es := by
  rcases lookup_or_child key es with hl | ⟨-, hmap⟩
  · exact Keyed.put_of_lookup hl
  · rw [hmap] at h
    exact absurd h not_stops_empty

theorem not_blocked_nil : ¬ Blocked item [] d e := by
  rintro ⟨q, key, rest, hp, -, -⟩
  simp at hp

theorem blocked_child : Blocked item p (child key es) e ↔ Blocked item (key :: p) (.map es) e := by
  constructor
  · rintro ⟨q, k, rest, rfl, hs, he⟩
    exact ⟨key :: q, k, rest, rfl, stops_child.1 hs, he⟩
  · rintro ⟨q, k, rest, hp, hs, he⟩
    cases q with
    | nil => exact (stops_nil.1 hs).elim
    | cons k' q =>
      obtain ⟨rfl, rfl⟩ := List.cons.inj hp
      exact ⟨q, k, rest, rfl, stops_child.2 hs, he⟩

theorem blocked_of_ne (hnull : d ≠ .null) (hmap : ∀ es, d ≠ .map es) :
    Blocked item (key :: p) d (faultAt item key p) :=
  ⟨[], key, p, rfl, stops_nil.2 (isClosed_of_ne hnull hmap), rfl⟩

theorem eq_faultAt_of_blocked (hmap : ∀ es, d ≠ .map es) (h : Blocked item (key :: p) d e) :
    e = faultAt item key p := by
  obtain ⟨q, k, rest, hp, hs, rfl⟩ := h
  cases q with
  | nil =>
    obtain ⟨rfl, rfl⟩ := List.cons.inj hp
    rfl
  | cons k' q => exact absurd hs (not_stops_cons hmap)

theorem exists_blocked_iff : (∃ e, Blocked item p d e) ↔ ∃ q, q <+: p ∧ q ≠ p ∧ d.Stops q := by
  constructor
  · rintro ⟨e, q, key, rest, rfl, hs, -⟩
    exact ⟨q, List.prefix_append q _, by simp, hs⟩
  · rintro ⟨q, ⟨rest, rfl⟩, hne, hs⟩
    cases rest with
    | nil => simp at hne
    | cons key rest => exact ⟨_, q, key, rest, rfl, hs, rfl⟩

namespace Sets

theorem here (v d : Value) : Sets [] v d v := by
  constructor
  case at_path => rfl
  case above =>
    intro q hq hne
    exact absurd (List.prefix_nil.1 hq) hne
  case beside =>
    intro q hq
    exact absurd List.nil_prefix hq.1

theorem under (h : Sets p v (child key es) d') :
    Sets (key :: p) v (.map es) (.map (Keyed.put key d' es)) := by
  have hunder (q : List String) : (Value.map (Keyed.put key d' es)).get? (key :: q) =
      d'.get? q := by
    rw [get?_cons_map, Keyed.lookup_put_self, Option.bind_some]
  constructor
  case at_path => rw [hunder, h.at_path]
  case above =>
    intro q hq hne
    cases q with
    | nil => exact ⟨_, rfl⟩
    | cons k q =>
      obtain ⟨rfl, hpre⟩ := List.cons_prefix_cons.1 hq
      rw [hunder]
      exact h.above q hpre fun he => hne (he ▸ rfl)
  case beside =>
    intro q hq
    cases q with
    | nil => exact absurd List.nil_prefix hq.2
    | cons k q =>
      by_cases hk : k = key
      · subst hk
        have hapart : Apart p q := ⟨fun hpq => hq.1 (List.cons_prefix_cons.2 ⟨rfl, hpq⟩),
          fun hqp => hq.2 (List.cons_prefix_cons.2 ⟨rfl, hqp⟩)⟩
        have hne : q ≠ [] := fun he => hapart.2 (he ▸ List.nil_prefix)
        rw [hunder, h.beside q hapart, get?_child hne]
      · rw [get?_cons_map, get?_cons_map, Keyed.lookup_put_of_ne hk]

theorem below (h : Sets p v d d') (q : List String) : d'.get? (p ++ q) = v.get? q := by
  rw [get?_append, h.at_path]
  rfl

end Sets

theorem assign_of_blocked (h : Blocked item p d e) : assign item v p d = (d, .error e) := by
  fun_induction assign item v p d with
  | case1 d => exact absurd h not_blocked_nil
  | case2 key es => exact absurd (blocked_child.2 h) not_blocked_nil
  | case3 key d hmap => rw [eq_faultAt_of_blocked hmap h, faultAt]
  | case4 key p es hne below outcome hbelow ih =>
    have hchild := blocked_child.2 h
    rw [ih hchild] at hbelow
    cases hbelow
    -- nothing stops a path below a mapping that was just made, so this one stood here before
    obtain ⟨q, k, rest, -, hs, -⟩ := hchild
    rw [put_child hs]
  | case5 key p d _ hne hmap =>
    obtain ⟨k, p, rfl⟩ := List.exists_cons_of_ne_nil hne
    rw [eq_faultAt_of_blocked hmap h, faultAt]

theorem exists_assign (hp : p ≠ []) (hd : d ≠ .null) (h : ∀ e, ¬ Blocked item p d e) :
    ∃ d', assign item v p d = (d', .ok ()) ∧ Sets p v d d' := by
  fun_induction assign item v p d with
  | case1 d => cases hp rfl
  | case2 key es => exact ⟨_, rfl, (Sets.here v _).under⟩
  | case3 key d hmap => exact absurd (blocked_of_ne hd hmap) (h _)
  | case4 key p es hne below outcome hbelow ih =>
    obtain ⟨u, hu, hsets⟩ := ih hne child_ne_null fun e he => h e (blocked_child.1 he)
    rw [hu] at hbelow
    cases hbelow
    exact ⟨_, rfl, hsets.under⟩
  | case5 key p d _ _ hmap => exact absurd (blocked_of_ne hd hmap) (h _)

/-- The path that an override names before its first equals sign. -/
def path (item : String) : List String := segments (item.toList.takeWhile (· != '='))

/-- The value that an override gives behind its first equals sign. -/
def given (item : String) : Value := value ((item.toList.dropWhile (· != '=')).drop 1)

/-- The faults of an override. -/
inductive Refused (item : String) (d : Value) : Fault → Prop
  | form (hsign : '=' ∉ item.toList) : Refused item d (.overrideForm item)
  | path (hsign : '=' ∈ item.toList) (hp : path item = []) : Refused item d (.overridePath item)
  | blocked {e : Fault} (hsign : '=' ∈ item.toList) (hb : Blocked item (path item) d e) :
    Refused item d e

/-- An override that names a path, of which nothing on the way is closed. -/
structure Free (item : String) (d : Value) : Prop where
  sign : '=' ∈ item.toList
  named : path item ≠ []
  passes : ∀ q, q <+: path item → q ≠ path item → ¬ d.Stops q

theorem Refused.alarm (h : Refused item d e) : e.alarm? = some .settings := by
  cases h with
  | form => rfl
  | path => rfl
  | blocked _ hb =>
    obtain ⟨q, key, rest, -, -, rfl⟩ := hb
    cases rest <;> rfl

theorem free_or_refused (item : String) (d : Value) : Free item d ∨ ∃ e, Refused item d e := by
  by_cases hsign : '=' ∈ item.toList
  · by_cases hp : path item = []
    · exact .inr ⟨_, .path hsign hp⟩
    · by_cases hb : ∃ e, Blocked item (path item) d e
      · obtain ⟨e, he⟩ := hb
        exact .inr ⟨e, .blocked hsign he⟩
      · exact .inl ⟨hsign, hp, fun q hq hne hs => hb (exists_blocked_iff.2 ⟨q, hq, hne, hs⟩)⟩
  · exact .inr ⟨_, .form hsign⟩

theorem Free.not_blocked (h : Free item d) (e : Fault) : ¬ Blocked item (path item) d e := by
  intro hb
  obtain ⟨q, hq, hne, hs⟩ := exists_blocked_iff.1 ⟨e, hb⟩
  exact h.passes q hq hne hs

theorem apply_of_sign (h : '=' ∈ item.toList) :
    apply d item = assign item (given item) (path item) d := by
  cases hd : item.toList.dropWhile (· != '=') with
  | nil =>
    have hnone : split? item.toList = none := by rw [split?, hd]
    exact absurd h (split?_eq_none_iff.1 hnone)
  | cons c rest =>
    rw [apply, split?, hd, given, hd]
    rfl

theorem apply_of_refused (h : Refused item d e) : apply d item = (d, .error e) := by
  cases h with
  | form hsign => rw [apply, split?_eq_none_iff.2 hsign]
  | path hsign hp => rw [apply_of_sign hsign, hp, assign]
  | blocked hsign hb => rw [apply_of_sign hsign, assign_of_blocked hb]

theorem exists_apply (h : Free item (.map es)) :
    ∃ es', apply (.map es) item = (.map es', .ok ()) ∧
      Sets (path item) (given item) (.map es) (.map es') := by
  obtain ⟨d, hd, hsets⟩ := exists_assign h.named (by nofun) h.not_blocked
  obtain ⟨es', hmap⟩ := hsets.above [] List.nil_prefix h.named.symm
  cases hmap
  rw [apply_of_sign h.sign]
  exact ⟨es', hd, hsets⟩

variable {d₁ d₂ : Value} {r : List String}

theorem Apart.symm (h : Apart p q) : Apart q p := ⟨h.2, h.1⟩

theorem Apart.append (h : Apart p q) (r : List String) : Apart p (q ++ r) := by
  constructor
  · intro hp
    cases List.prefix_or_prefix_of_prefix hp (List.prefix_append q r) with
    | inl hpq => exact h.1 hpq
    | inr hqp => exact h.2 hqp
  · intro hq
    exact h.2 ((List.prefix_append q r).trans hq)

theorem Apart.of_above (h : Apart p q) (hr : r <+: p) (hne : ¬ r <+: q) : Apart q r :=
  ⟨fun hq => h.2 (hq.trans hr), hne⟩

structure SetsBoth (p : List String) (v : Value) (q : List String) (w : Value) (d d' : Value) :
    Prop where
  below_first : ∀ r, d'.get? (p ++ r) = v.get? r
  below_second : ∀ r, d'.get? (q ++ r) = w.get? r
  above : ∀ r, r <+: p ∧ r ≠ p ∨ r <+: q ∧ r ≠ q → ∃ es, d'.get? r = some (.map es)
  beside : ∀ r, Apart p r → Apart q r → d'.get? r = d.get? r

theorem SetsBoth.symm (h : SetsBoth p v q w d d') : SetsBoth q w p v d d' := by
  constructor
  case below_first => exact h.below_second
  case below_second => exact h.below_first
  case above => exact fun r hr => h.above r hr.symm
  case beside => exact fun r hq hp => h.beside r hp hq

theorem Sets.both (hp : Sets p v d d₁) (hq : Sets q w d₁ d₂) (h : Apart p q) :
    SetsBoth p v q w d d₂ := by
  constructor
  case below_first =>
    intro r
    rw [hq.beside _ (h.symm.append r), hp.below]
  case below_second => exact hq.below
  case above =>
    rintro r (⟨hr, hne⟩ | ⟨hr, hne⟩)
    · by_cases hrq : r <+: q
      · exact hq.above r hrq fun he => h.2 (he ▸ hr)
      · rw [hq.beside r (h.of_above hr hrq)]
        exact hp.above r hr hne
    · exact hq.above r hr hne
  case beside =>
    intro r hpr hqr
    rw [hq.beside r hqr, hp.beside r hpr]

/-- All paths are below one of the two, above one of them, or beside both. -/
theorem SetsBoth.alike (h₁ : SetsBoth p v q w d d₁) (h₂ : SetsBoth p v q w d d₂) :
    d₁.Alike d₂ := by
  intro r
  by_cases hp : p <+: r
  · obtain ⟨s, rfl⟩ := hp
    rw [h₁.below_first, h₂.below_first]
  by_cases hq : q <+: r
  · obtain ⟨s, rfl⟩ := hq
    rw [h₁.below_second, h₂.below_second]
  by_cases habove : r <+: p ∨ r <+: q
  · have hstrict : r <+: p ∧ r ≠ p ∨ r <+: q ∧ r ≠ q :=
      habove.imp (fun hr => ⟨hr, fun he => hp (he ▸ List.prefix_rfl)⟩)
        fun hr => ⟨hr, fun he => hq (he ▸ List.prefix_rfl)⟩
    obtain ⟨es₁, hes₁⟩ := h₁.above r hstrict
    obtain ⟨es₂, hes₂⟩ := h₂.above r hstrict
    rw [hes₁, hes₂]
    rfl
  · obtain ⟨hrp, hrq⟩ := not_or.1 habove
    rw [h₁.beside r ⟨hp, hrp⟩ ⟨hq, hrq⟩, h₂.beside r ⟨hp, hrp⟩ ⟨hq, hrq⟩]

theorem Sets.stops_iff (h : Sets p v d d') (hpasses : ∀ r, r <+: p → r ≠ p → ¬ d.Stops r)
    (hapart : Apart p q) (hr : r <+: q) : d'.Stops r ↔ d.Stops r := by
  by_cases hrp : r <+: p
  · have hne : r ≠ p := fun he => hapart.1 (he ▸ hr)
    obtain ⟨es, hes⟩ := h.above r hrp hne
    exact iff_of_false (not_stops_of_map hes) (hpasses r hrp hne)
  · rw [Stops, h.beside r (hapart.symm.of_above hr hrp), Stops]

theorem Sets.free_iff (h : Sets (path item) v d d') (hfree : Free item d)
    (hapart : Apart (path item) (path other)) : Free other d' ↔ Free other d := by
  have hstops (r : List String) (hr : r <+: path other) := h.stops_iff hfree.passes hapart hr
  constructor
  · intro hother
    exact ⟨hother.sign, hother.named,
      fun r hr hne hs => hother.passes r hr hne ((hstops r hr).2 hs)⟩
  · intro hother
    exact ⟨hother.sign, hother.named,
      fun r hr hne hs => hother.passes r hr hne ((hstops r hr).1 hs)⟩

/-- One override after the other, up to the first that is refused. -/
inductive Runs : Value → List String → Value × Except Fault Unit → Prop
  | done (d : Value) : Runs d [] (d, .ok ())
  | refuse {d : Value} {item : String} {e : Fault} (rest : List String) (he : Refused item d e)
    (halarm : e.alarm? = some .settings) : Runs d (item :: rest) (d, .error e)
  | set {d d' : Value} {item : String} {rest : List String} {result : Value × Except Fault Unit}
    (hfree : Free item d) (happly : apply d item = (d', .ok ()))
    (hset : Sets (path item) (given item) d d') (hrest : Runs d' rest result) :
    Runs d (item :: rest) result

theorem runs_applyAll (es : Keyed Value) (items : List String) :
    Runs (.map es) items (applyAll (.map es) items) := by
  induction items generalizing es with
  | nil => exact .done _
  | cons item rest ih =>
    rw [applyAll]
    rcases free_or_refused item (.map es) with hfree | ⟨e, he⟩
    · obtain ⟨es', happ, hset⟩ := exists_apply hfree
      rw [happ]
      exact .set hfree happ hset (ih es')
    · rw [apply_of_refused he]
      exact .refuse rest he he.alarm

theorem Runs.free_pair {result : Value × Except Fault Unit} (h : Runs d [item, other] result)
    (hok : result.2 = .ok ()) (hapart : Apart (path item) (path other)) :
    Free item d ∧ Free other d := by
  cases h with
  | refuse => cases hok
  | set hfree _ hset hrest =>
    cases hrest with
    | refuse => cases hok
    | set hother => exact ⟨hfree, (hset.free_iff hfree hapart).1 hother⟩

theorem exists_applyAll_pair (hapart : Apart (path item) (path other))
    (hitem : Free item (.map es)) (hother : Free other (.map es)) :
    ∃ d, applyAll (.map es) [item, other] = (d, .ok ()) ∧
      SetsBoth (path item) (given item) (path other) (given other) (.map es) d := by
  obtain ⟨es₁, h₁, hset₁⟩ := exists_apply hitem
  obtain ⟨es₂, h₂, hset₂⟩ := exists_apply ((hset₁.free_iff hitem hapart).2 hother)
  refine ⟨_, ?_, hset₁.both hset₂ hapart⟩
  rw [applyAll, h₁]
  dsimp only
  rw [applyAll, h₂]
  rfl

/-- Overrides of a mapping are handled in turn, and two on paths apart come to the same in either
order. -/
theorem applied_in_turn (es : Keyed Value) :
    (∀ items, Runs (.map es) items (applyAll (.map es) items)) ∧
    ∀ item other, Apart (path item) (path other) →
      ((applyAll (.map es) [item, other]).2 = .ok () ↔
        Free item (.map es) ∧ Free other (.map es)) ∧
      (Free item (.map es) → Free other (.map es) →
        (applyAll (.map es) [item, other]).1.Alike (applyAll (.map es) [other, item]).1) := by
  refine ⟨runs_applyAll es, ?_⟩
  intro item other hapart
  constructor
  · constructor
    · intro hok
      exact (runs_applyAll es _).free_pair hok hapart
    · rintro ⟨hitem, hother⟩
      obtain ⟨d, hd, -⟩ := exists_applyAll_pair hapart hitem hother
      rw [hd]
  · intro hitem hother
    obtain ⟨d, hd, hboth⟩ := exists_applyAll_pair hapart hitem hother
    obtain ⟨d', hd', hboth'⟩ := exists_applyAll_pair hapart.symm hother hitem
    rw [hd, hd']
    exact hboth.alike hboth'.symm

def sampleSettings : Keyed Value :=
  [("pm", .map [("nmesh", .whole 64)]), ("io", .null), ("seed", .whole 3)]

theorem applied_in_turn_sample :
    Runs (.map sampleSettings) ["io.outdir=run", "seed.low=1", "pm.nmesh=256"]
      (.map [("pm", .map [("nmesh", .whole 64)]), ("io", .map [("outdir", .text "run")]),
        ("seed", .whole 3)], .error (.overrideTarget "seed.low=1")) ∧
    Apart (path "pm.nmesh=256") (path "io.outdir=run") ∧
    Free "pm.nmesh=256" (.map sampleSettings) ∧ Free "io.outdir=run" (.map sampleSettings) ∧
    (applyAll (.map sampleSettings) ["pm.nmesh=256", "io.outdir=run"]).1.Alike
      (applyAll (.map sampleSettings) ["io.outdir=run", "pm.nmesh=256"]).1 := by
  obtain ⟨hruns, hpair⟩ := applied_in_turn sampleSettings
  have hapart : Apart (path "pm.nmesh=256") (path "io.outdir=run") := by
    rw [Apart]
    decide +kernel
  obtain ⟨hfree, halike⟩ := hpair _ _ hapart
  obtain ⟨hpm, hio⟩ := hfree.1 rfl
  exact ⟨hruns _, hapart, hpm, hio, halike hpm hio⟩

end Override

end BlockStep
