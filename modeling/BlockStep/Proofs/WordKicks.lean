import BlockStep.Proofs.Alike
import BlockStep.Proofs.OneRank

namespace BlockStep

variable {α : Type} {n : Nat}

namespace Word

/-- A tick that can be stored. -/
def IsTick (i : Int) : Prop := 0 ≤ i ∧ i ≤ greatest

theorem isTick_of_le {last i : Int} (hlast : last ≤ greatest) (h : 0 ≤ i) (hle : i ≤ last) :
    IsTick i := ⟨h, Int.le_trans hle hlast⟩

end Word

/-- A stretch between words. -/
structure Stretch.InWords (k : Stretch) : Prop where
  start : Word.IsTick k.start
  stop : Word.IsTick k.stop
  le : k.start ≤ k.stop

theorem Stretch.InWords.length {k : Stretch} (h : k.InWords) : Word.IsTick (k.stop - k.start) := by
  obtain ⟨⟨hstart, -⟩, ⟨-, hstop⟩, hle⟩ := h
  exact ⟨by omega, by omega⟩

/-- The start of the step, its length and the tick of the last kick are words. -/
structure Particle.InWords (p : Particle α) : Prop where
  stepStart : Word.IsTick p.stepStart
  kickTick : Word.IsTick p.kickTick
  cadence : Word.IsTick (TickCount.cadence p.bin)

def Store.InWords (s : Store α) : Prop := ∀ p ∈ s, p.InWords

namespace Store

variable {β : Type} {s s' : Store α} {change : β → Particle α → Particle α}

theorem InWords.of_marks (h : s.InWords) (hs : s'.marks = s.marks) : s'.InWords := by
  intro p hp
  obtain ⟨hstart, hkick, hcadence⟩ := forall_mark (P := fun k => Word.IsTick k.1.stepStart ∧
    Word.IsTick k.2 ∧ Word.IsTick (TickCount.cadence k.1.bin)) hs
    (fun p hp => ⟨(h p hp).stepStart, (h p hp).kickTick, (h p hp).cadence⟩) p hp
  exact ⟨hstart, hkick, hcadence⟩

theorem InWords.scatter (h : s.InWords) {places : List Nat} {values : List β}
    (hchange : ∀ v ∈ values, ∀ p, p.InWords → (change v p).InWords) :
    (s.scatter change places values).InWords := by
  induction places generalizing s values with
  | nil => exact h
  | cons i is ih =>
    cases values with
    | nil => exact h
    | cons v vs =>
      apply ih (s := s.modify i (change v))
      · intro p hp
        obtain ⟨j, hj⟩ := Array.getElem?_of_mem hp
        rw [Array.getElem?_modify] at hj
        split at hj
        · obtain ⟨q, hq, rfl⟩ := Option.map_eq_some_iff.1 hj
          exact hchange v List.mem_cons_self q (h q (Array.mem_of_getElem? hq))
        · exact h p (Array.mem_of_getElem? hj)
      · exact fun v hv => hchange v (List.mem_cons_of_mem _ hv)

theorem marks_scatter (h : ∀ v p, (change v p).mark = p.mark) (s : Store α) (places : List Nat)
    (values : List β) : marks (s.scatter change places values) = s.marks := by
  induction places generalizing s values with
  | nil => rfl
  | cons i is ih =>
    cases values with
    | nil => rfl
    | cons v vs =>
      apply (ih (s.modify i (change v)) vs).trans
      apply Array.ext_getElem?
      intro j
      rw [marks, marks, Array.getElem?_map, Array.getElem?_map, Array.getElem?_modify]
      split
      · rw [Option.map_map]
        congr 1
        exact funext (h v)
      · rfl

end Store

/-- Sources of kick factors that agree where they are asked for words. -/
structure KickSource.EqOnWords (g g' : KickSource α) : Prop where
  factor : ∀ start stop kind, Word.IsTick start → Word.IsTick stop →
    g.factor start stop kind = g'.factor start stop kind
  length : ∀ ticks epoch, Word.IsTick ticks → g.length ticks epoch = g'.length ticks epoch

def Kicker.withSource (r : Kicker α) (g : KickSource α) : Kicker α := { r with source := g }

def Setup.withSource (u : Setup α) (g : KickSource α) : Setup α :=
  { u with kicker := u.kicker.withSource g }

variable [Scalar α]

namespace Kicker

variable {r : Kicker α} {g : KickSource α} {t : TimeFactors α} {s : Store α} {ks : List Stretch}

theorem isTick_cadence (h : s.InWords) (k : Stretch) :
    Word.IsTick (TickCount.cadence (particle s k).bin) := by
  rw [particle]
  cases hp : s[k.place]? with
  | none => exact (⟨Int.le_refl 0, by decide⟩ : Word.IsTick 0)
  | some p => exact (h p (Array.mem_of_getElem? hp)).cadence

theorem marks_kicked (r : Kicker α) (t : TimeFactors α) (s : Store α) (ks : List Stretch) :
    (r.kicked t s ks).1.marks = s.marks := by
  simp only [kicked]
  split
  · rw [Kick.gasInTurn_fst]
    apply (Store.marks_scatter (fun k p => ?_) _ _ _).trans
    · have hpulled (k : α) (p : Particle α) :
          (Kick.withVel p (p.vel + p.gravAccel.scale k)).mark = p.mark := rfl
      exact Store.marks_scatter hpulled s _ _
    · obtain ⟨g, hg⟩ := Kick.exists_gasOne (Kick.limits r.gas t) k p
      rw [hg]
      rfl
  · have hgas (g : Kick.GasState α) (p : Particle α) : (Kick.withGas g p).mark = p.mark := rfl
    have hvel (v : Vec3 α) (p : Particle α) : (Kick.withVel p v).mark = p.mark := rfl
    exact (Store.marks_scatter hgas _ _ _).trans (Store.marks_scatter hvel s _ _)

omit [Scalar α] in
theorem inWords_noted (h : s.InWords) (hks : ∀ k ∈ ks, k.InWords) : (noted s ks).InWords := by
  apply Store.InWords.scatter h
  intro stop hstop p hp
  obtain ⟨k, hk, rfl⟩ := List.mem_map.1 hstop
  exact ⟨hp.stepStart, (hks k hk).stop, hp.cadence⟩

theorem always_noteAll_inWords (h : s.InWords) (hks : ∀ k ∈ ks, k.InWords) :
    (r.noteAll ks).Always (fun _ s' => s'.InWords) s fun _ s' => s'.InWords := by
  rw [noteAll]
  split
  · apply Act.always_bind.2
    apply Act.always_get.2
    cases gap? s ks with
    | some e => exact Act.always_fail.2 h
    | none => exact Act.always_modify.2 (inWords_noted h hks)
  · exact Act.always_pure.2 h

theorem always_shortRange_inWords (h : s.InWords) (hks : ∀ k ∈ ks, k.InWords) :
    (r.shortRange t ks).Always (fun _ s' => s'.InWords) s fun _ s' => s'.InWords := by
  by_cases hempty : ks = []
  · rw [hempty]
    exact Act.always_pure.2 h
  rw [shortRange_eq hempty]
  apply Act.always_bind.2
  apply (always_noteAll_inWords h hks).mono ?_ fun _ _ hs => hs
  intro _ s' hs'
  simp only [kickAll, Act.always_bind, Act.always_get, Act.always_set, Act.always_tell]
  exact hs'.of_marks (r.marks_kicked t s' ks)

section Source

variable (hg : g.EqOnWords r.source)

include hg

theorem longRange_withSource {start stop : Int} (hstart : Word.IsTick start)
    (hstop : Word.IsTick stop) :
    (r.withSource g).longRange start stop = r.longRange start stop := by
  simp only [longRange, withSource, hg.factor start stop .gravity hstart hstop]

theorem kicked_withSource (h : s.InWords) (hks : ∀ k ∈ ks, k.InWords) :
    (r.withSource g).kicked t s ks = r.kicked t s ks := by
  have hfactors : ks.map (fun k => g.factor k.start k.stop .gravity) =
      ks.map fun k => r.source.factor k.start k.stop .gravity :=
    List.map_congr_left fun k hk => hg.factor _ _ _ (hks k hk).start (hks k hk).stop
  have hweights : (ks.filter fun k => (particle s k).isGas).map ((r.withSource g).gasKick s) =
      (ks.filter fun k => (particle s k).isGas).map (r.gasKick s) := by
    apply List.map_congr_left
    intro k hk
    have hwords := hks k (List.mem_filter.1 hk).1
    simp only [gasKick, withSource, hg.factor _ _ _ hwords.start hwords.stop,
      hg.length _ _ hwords.length, hg.length _ _ (isTick_cadence h k)]
  simp only [kicked, hweights]
  simp only [withSource, hfactors]

theorem alike_shortRange (h : s.InWords) (hks : ∀ k ∈ ks, k.InWords) :
    (r.shortRange t ks).Alike ((r.withSource g).shortRange t ks) s := by
  by_cases hempty : ks = []
  · rw [hempty]
    exact .refl _ s
  rw [shortRange_eq hempty, shortRange_eq hempty]
  apply Act.Alike.bind_left (always_noteAll_inWords (r := r) h hks)
  intro _ s' hs'
  apply Act.Alike.get_bind
  rw [kicked_withSource hg hs' hks]
  exact .refl _ _

end Source

end Kicker

namespace Stepper

/-- A turn whose ticks are words: the start of the new step, its length, and its kick. -/
structure Turn.InWords (e : Turn α) : Prop where
  start : Word.IsTick e.boundary
  cadence : Word.IsTick (TickCount.cadence e.next.bin)
  stretch : ∀ toMiddle, (e.stretch toMiddle).InWords

end Stepper

/-- The ticks that are written and handed to the source of kick factors where an allotment is
carried out. -/
structure Allotment.InWords (timebase : Int) (s : Stepper α n) (a : Allotment α) : Prop where
  turns : ∀ e ∈ s.turns a.placed, e.InWords
  mesh : s.current.toAbsolute timebase = s.mesh.stop → Word.IsTick s.mesh.kickTick ∧
    Word.IsTick s.mesh.stop ∧ Word.IsTick (kickPoint s.mesh.stop a.most)

namespace Stepper

variable {u : Setup α} {g : KickSource α} {s t : Stepper α n} {ts : List (Turn α)}

section Turns

variable (hts : ∀ e ∈ ts, e.InWords) (h : t.store.InWords)

include hts h

theorem always_applyMoves_inWords :
    (applyMoves ts).Always (fun _ t => t.store.InWords) t fun _ t => t.store.InWords := by
  rw [applyMoves]
  apply Act.always_bind.2
  apply Act.always_get.2
  generalize t.registry.migrate (ts.map Turn.move) = r
  apply Act.always_bind.2
  apply Act.always_set.2
  refine Act.always_bind.2 (Act.always_lift (fun moved _ => ?_) fun _ _ => h)
  apply Act.always_bind.2
  apply Act.always_within.2
  apply Act.always_modify.2
  apply Act.always_pure.2
  show Store.InWords (t.store.scatter (fun b p => { p with bin := b }) (ts.map (·.place)) _)
  apply Store.InWords.scatter h
  intro b hb p hp
  obtain ⟨e, he, rfl⟩ := List.mem_map.1 hb
  exact ⟨hp.stepStart, hp.kickTick, (hts e he).cadence⟩

theorem always_beginSteps_inWords :
    (beginSteps ts).Always (fun _ t => t.store.InWords) t fun _ t => t.store.InWords := by
  rw [beginSteps]
  apply Act.always_within.2
  apply Act.always_modify.2
  show Store.InWords (t.store.scatter (fun b p => { p with stepStart := b }) (ts.map (·.place)) _)
  apply Store.InWords.scatter h
  intro b hb p hp
  obtain ⟨e, he, rfl⟩ := List.mem_map.1 hb
  exact ⟨(hts e he).start, hp.kickTick, hp.cadence⟩

omit [Scalar α] h in
theorem inWords_stretches (toMiddle : Bool) : ∀ k ∈ ts.map (Turn.stretch toMiddle), k.InWords := by
  intro k hk
  obtain ⟨e, he, rfl⟩ := List.mem_map.1 hk
  exact (hts e he).stretch toMiddle

theorem always_turnAll_inWords (toMiddle : Bool) :
    (turnAll u toMiddle s ts).Always (fun _ t => t.store.InWords) t fun _ t => t.store.InWords := by
  rw [turnAll]
  apply Act.always_bind.2
  apply (always_applyMoves_inWords hts h).mono ?_ fun _ _ ht => ht
  intro moved t₁ h₁
  have hphase : Store.InWords ({ t₁ with phase := .kick } : Stepper α n).store := h₁
  apply Act.always_bind.2
  apply Act.always_modify.2
  apply Act.always_bind.2
  apply (always_beginSteps_inWords hts hphase).mono ?_ fun _ _ ht => ht
  intro _ t₂ h₂
  apply Act.always_bind.2
  apply Act.always_within.2
  apply (Kicker.always_shortRange_inWords h₂ (inWords_stretches hts toMiddle)).mono
  · exact fun _ _ ht => Act.always_pure.2 ht
  · exact fun _ _ ht => ht

theorem alike_turnAll (hg : g.EqOnWords u.kicker.source) (toMiddle : Bool) :
    (turnAll u toMiddle s ts).Alike (turnAll (u.withSource g) toMiddle s ts) t := by
  apply Act.Alike.bind_left (always_applyMoves_inWords hts h)
  intro moved t₁ h₁
  apply Act.Alike.bind_left (Act.always_modify (E := fun _ _ => True)
    (R := fun _ t => t.store.InWords).2 h₁)
  intro _ t₂ h₂
  apply Act.Alike.bind_left (always_beginSteps_inWords hts h₂)
  intro _ t₃ h₃
  apply Act.Alike.bind_right
  apply Act.Alike.within
  exact Kicker.alike_shortRange hg h₃ (inWords_stretches hts toMiddle)

end Turns

theorem alike_renewMesh (hg : g.EqOnWords u.kicker.source) {ticks : Int} (toMiddle : Bool)
    (now : Int) (hkick : Word.IsTick t.mesh.kickTick) (hstop : Word.IsTick t.mesh.stop)
    (hnext : Word.IsTick (kickPoint t.mesh.stop ticks)) :
    (renewMesh u toMiddle ticks now).Alike (renewMesh (u.withSource g) toMiddle ticks now) t := by
  have hlast : Word.IsTick (if toMiddle then kickPoint t.mesh.stop ticks else t.mesh.stop) := by
    split
    · exact hnext
    · exact hstop
  rw [renewMesh, renewMesh]
  apply Act.Alike.bind_left (E := fun _ _ => True) (R := fun _ t' => t'.mesh = t.mesh)
  · exact Act.always_modify.2 rfl
  intro _ t' ht'
  apply Act.Alike.get_bind
  apply Act.Alike.bind_right
  rw [ht']
  apply Act.Alike.within
  rw [Setup.withSource, Kicker.longRange_withSource hg hkick hlast]
  exact .refl _ _

theorem alike_conclude (hg : g.EqOnWords u.kicker.source) (toMiddle : Bool) {atMesh : Bool}
    {ticks : Int} (now all : Int) (hmesh : atMesh → Word.IsTick t.mesh.kickTick ∧
      Word.IsTick t.mesh.stop ∧ Word.IsTick (kickPoint t.mesh.stop ticks)) :
    (conclude u toMiddle atMesh ticks now all).Alike
      (conclude (u.withSource g) toMiddle atMesh ticks now all) t := by
  rw [conclude, conclude]
  by_cases hall : all ≠ 0
  · rw [if_pos hall, if_pos hall]
    apply Act.Alike.bind_left (E := fun _ _ => True) (R := fun _ _ => False)
    · exact (does_abort u all t).always_error.2 trivial
    · exact fun _ _ hno => hno.elim
  rw [if_neg hall, if_neg hall]
  cases atMesh with
  | false =>
    rw [if_neg Bool.false_ne_true, if_neg Bool.false_ne_true]
    exact .refl _ _
  | true =>
    obtain ⟨hkick, hstop, hnext⟩ := hmesh rfl
    rw [if_pos rfl, if_pos rfl]
    exact (alike_renewMesh hg toMiddle now hkick hstop hnext).bind_right _

theorem alike_sumUp {a : Allotment α} (hg : g.EqOnWords u.kicker.source) (toMiddle : Bool)
    (hmesh : t.mesh = s.mesh) (ha : currentAbsolute u s = s.mesh.stop →
      Word.IsTick s.mesh.kickTick ∧ Word.IsTick s.mesh.stop ∧
        Word.IsTick (kickPoint s.mesh.stop a.most)) :
    (sumUp u toMiddle s a).Alike (sumUp (u.withSource g) toMiddle s a) t := by
  rw [sumUp, sumUp]
  apply Act.Alike.bind_left (E := fun _ _ => True) (R := fun _ t' => t' = t)
  · exact Act.always_reduce.2 fun _ _ => rfl
  rintro all _ rfl
  refine alike_conclude hg toMiddle (currentAbsolute u s) all fun hat => ?_
  rw [hmesh]
  exact ha (beq_iff_eq.1 hat)

section CarryOut

variable {a : Allotment α} (ha : a.InWords u.timebase s) (h : s.store.InWords)

include ha h

theorem always_turnAll_of_inWords (toMiddle : Bool) :
    (turnAll u toMiddle s (s.turns a.placed)).Always (fun _ t => t.store.InWords) s
      fun _ t => t.store.InWords ∧ t.mesh = s.mesh := by
  apply ((always_turnAll_inWords ha.turns h toMiddle).and (keeps_turnAll toMiddle s _ s)).mono
  · rintro moved t ⟨ht, hkept⟩
    exact ⟨ht, congrArg (·.2.2.1) hkept⟩
  · exact fun _ _ ht => ht.1

/-- An allotment in words is carried out in words, whether its rank fails or not. -/
theorem always_carryOut_inWords (toMiddle : Bool)
    (hmost : currentAbsolute u s = s.mesh.stop → TickCount.IsStep a.most) :
    (carryOut u toMiddle s a).Always (fun _ t => t.store.InWords) s fun _ t => t.store.InWords := by
  rw [carryOut]
  apply Act.always_bind.2
  apply (always_turnAll_of_inWords ha h toMiddle).mono ?_ fun _ _ ht => ht
  rintro moved t ⟨ht, hmesh⟩
  apply Act.always_bind.2
  apply always_sumUp
  · exact fun hat => ⟨hmost hat, hmesh.symm⟩
  · apply Act.always_pure.2
    apply ht.of_marks
    show Store.marks (if _ then _ else _) = _
    split
    · exact Store.marks_map (meshKick toMiddle u.kicker t.mesh a.most) (fun _ => rfl) _
    · rfl
  · exact fun _ _ => ht

theorem alike_carryOut (hg : g.EqOnWords u.kicker.source) (toMiddle : Bool) :
    (carryOut u toMiddle s a).Alike (carryOut (u.withSource g) toMiddle s a) s := by
  rw [carryOut, carryOut]
  apply (alike_turnAll ha.turns h hg toMiddle).bind (always_turnAll_of_inWords ha h toMiddle)
  rintro moved t ⟨-, hmesh⟩
  apply Act.Alike.bind_right
  exact alike_sumUp hg toMiddle hmesh ha.mesh

end CarryOut

end Stepper

end BlockStep
