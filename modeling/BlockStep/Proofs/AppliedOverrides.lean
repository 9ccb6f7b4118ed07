import BlockStep.Proofs.WrittenOverrides

namespace BlockStep.Override

open Value

def ArePrefixFree (entries : List Entry) : Prop :=
  ∀ e ∈ entries, ∀ e' ∈ entries, e.keys <+: e'.keys → e.keys = e'.keys

structure Stores (d : Value) (entries : List Entry) : Prop where
  last : ∀ before e after, entries = before ++ e :: after → (∀ e' ∈ after, e'.keys ≠ e.keys) →
    d.get? e.keys = some e.datum.value
  above : ∀ e ∈ entries, ∀ q, q <+: e.keys → q ≠ e.keys → ∃ es, d.get? q = some (.map es)
  below : ∀ e ∈ entries, ∀ q, q ≠ [] → d.get? (e.keys ++ q) = none
  beside : ∀ q, q ≠ [] → (∀ e ∈ entries, Apart e.keys q) → d.get? q = none

variable {entries done : List Entry} {e e' : Entry} {es : Keyed Value} {d d' : Value}
  {q : List String}

theorem Datum.get?_value (datum : Datum) (hq : q ≠ []) : datum.value.get? q = none := by
  obtain ⟨key, rest, rfl⟩ := List.exists_cons_of_ne_nil hq
  cases datum with
  | whole i => rfl
  | text s => rfl

namespace ArePrefixFree

theorem apart (h : ArePrefixFree entries) (he : e ∈ entries) (he' : e' ∈ entries)
    (hne : e.keys ≠ e'.keys) : Apart e.keys e'.keys :=
  ⟨fun hpre => hne (h e he e' he' hpre), fun hpre => hne (h e' he' e he hpre).symm⟩

theorem apart_of_above (h : ArePrefixFree entries) (he : e ∈ entries) (he' : e' ∈ entries)
    (hq : q <+: e'.keys) (hne : q ≠ e'.keys) (hqe : ¬ q <+: e.keys) : Apart e.keys q := by
  refine ⟨fun hpre => hqe ?_, hqe⟩
  have hkeys := h e he e' he' (hpre.trans hq)
  rw [hkeys] at hpre
  exact absurd (hq.eq_of_length_le hpre.length_le) hne

end ArePrefixFree

theorem stores_empty : Stores (.map []) [] where
  last before e after h _ :=
    absurd h.symm (List.append_ne_nil_of_right_ne_nil before (List.cons_ne_nil e after))
  above := nofun
  below := nofun
  beside q hq _ := by
    obtain ⟨key, rest, rfl⟩ := List.exists_cons_of_ne_nil hq
    rfl

namespace Stores

/-- Nothing on the way of a further path is closed. -/
theorem passes (h : Stores (.map es) done) (hnest : ArePrefixFree (done ++ [e]))
    (hq : q <+: e.keys) (hne : q ≠ e.keys) : ¬ (Value.map es).Stops q := by
  have he : e ∈ done ++ [e] := List.mem_append_right done List.mem_cons_self
  by_cases hroot : q = []
  · rw [hroot]
    exact not_stops_of_map rfl
  by_cases hapart : ∀ x ∈ done, Apart x.keys q
  · rintro ⟨v, hv, -⟩
    rw [h.beside q hroot hapart] at hv
    cases hv
  -- an entry that is done stands at the end of `q`, or further below
  obtain ⟨x, hx, hnot⟩ : ∃ x ∈ done, ¬ Apart x.keys q := by simpa using hapart
  have hfurther : ¬ x.keys <+: q := by
    intro hpre
    have hkeys := hnest x (List.mem_append_left [e] hx) e he (hpre.trans hq)
    rw [hkeys] at hpre
    exact hne (hq.eq_of_length_le hpre.length_le)
  have habove : q <+: x.keys := Decidable.byContradiction fun hpre => hnot ⟨hfurther, hpre⟩
  obtain ⟨es', hes'⟩ := h.above x hx q habove fun hkeys => hfurther (hkeys ▸ List.prefix_rfl)
  exact not_stops_of_map hes'

theorem append (h : Stores d done) (hnest : ArePrefixFree (done ++ [e]))
    (hset : Sets e.keys e.datum.value d d') : Stores d' (done ++ [e]) := by
  have he : e ∈ done ++ [e] := List.mem_append_right done List.mem_cons_self
  have hdone {x : Entry} (hx : x ∈ done ++ [e]) (hne : e.keys ≠ x.keys) : x ∈ done :=
    (List.mem_append.1 hx).resolve_right fun hlast => hne (List.mem_singleton.1 hlast ▸ rfl)
  constructor
  case last =>
    intro before x after hsplit hlater
    rcases List.eq_nil_or_concat after with rfl | ⟨after, y, rfl⟩
    · obtain ⟨-, hlast⟩ := List.append_inj' hsplit rfl
      cases hlast
      exact hset.at_path
    · rw [List.concat_eq_append, ← List.cons_append, ← List.append_assoc] at hsplit
      obtain ⟨rfl, hlast⟩ := List.append_inj' hsplit rfl
      cases hlast
      have hne : e.keys ≠ x.keys := hlater e (by simp)
      rw [hset.beside _ (hnest.apart he (by simp) hne)]
      exact h.last before x after rfl fun y hy => hlater y (by simp [hy])
  case above =>
    intro x hx q hq hne
    by_cases hqe : q <+: e.keys
    · refine hset.above q hqe fun hkeys => hne ?_
      rw [hkeys] at hq ⊢
      exact hnest e he x hx hq
    · have hkeys : e.keys ≠ x.keys := fun hkeys => hqe (hkeys ▸ hq)
      rw [hset.beside q (hnest.apart_of_above he hx hq hne hqe)]
      exact h.above x (hdone hx hkeys) q hq hne
  case below =>
    intro x hx q hq
    by_cases hkeys : e.keys = x.keys
    · rw [← hkeys, hset.below, e.datum.get?_value hq]
    · rw [hset.beside _ ((hnest.apart he hx hkeys).append q)]
      exact h.below x (hdone hx hkeys) q hq
  case beside =>
    intro q hq hapart
    rw [hset.beside q (hapart e he)]
    exact h.beside q hq fun x hx => hapart x (List.mem_append_left [e] hx)

end Stores

/-- Entries are taken one after the other. -/
theorem exists_applyAll_entries (h : Stores (.map es) done) {rest : List Entry}
    (hnest : ArePrefixFree (done ++ rest)) (hrest : ∀ e ∈ rest, e.IsWritable) :
    ∃ es', applyAll (.map es) (rest.map Entry.item) = (.map es', .ok ()) ∧
      Stores (.map es') (done ++ rest) := by
  induction rest generalizing done es with
  | nil =>
    rw [List.append_nil]
    exact ⟨es, rfl, h⟩
  | cons e rest ih =>
    rw [List.append_cons] at hnest ⊢
    have he := hrest e List.mem_cons_self
    have hfirst : ArePrefixFree (done ++ [e]) := fun x hx y hy =>
      hnest x (List.mem_append_left rest hx) y (List.mem_append_left rest hy)
    have hfree : Free e.item (.map es) := by
      refine ⟨Entry.sign_mem_item, ?_, ?_⟩
      · rw [he.path_item]
        exact he.named
      · rw [he.path_item]
        exact fun q hq hne => h.passes hfirst hq hne
    obtain ⟨es₁, happly, hset⟩ := exists_apply hfree
    rw [he.path_item, he.given_item] at hset
    obtain ⟨es', hall, hstores⟩ := ih (h.append hfirst hset) hnest
      fun x hx => hrest x (List.mem_cons_of_mem e hx)
    refine ⟨es', ?_, hstores⟩
    rw [List.map_cons, applyAll, happly]
    exact hall

/-- What comes of a file: its overrides are read in order, and applied to an empty document they all
count. -/
structure File.IsReadBack (f : File) : Prop where
  items : ofLines f.text = f.entries.map Entry.item
  applied : ArePrefixFree f.entries → ∃ es,
    applyAll (.map []) (ofLines f.text) = (.map es, .ok ()) ∧ Stores (.map es) f.entries

/-- What is written to a file of overrides is read back, whatever the texts hold and however the
lines are laid out. -/
theorem File.overrides_read_back {f : File} (h : f.IsWritable) : f.IsReadBack where
  items := h.ofLines_text
  applied hnest := by
    rw [h.ofLines_text]
    exact exists_applyAll_entries stores_empty hnest fun e he => h.override_mem he

def sampleFile : File where
  lines :=
    [(.remark [] " grid = 64".toList, .both),
      (.entry [] ⟨["pm", "nmesh"], .whole 256⟩ [' '], .feed),
      (.blank ['\t'], .carriage),
      (.entry [' ', '\u2003'] ⟨["io", "title"], .text "a = \"b\" # nan"⟩ [], .carriage),
      (.blank [], .feed),
      (.entry [] ⟨["io", "", "code"], .text "-012"⟩ ['\x0c'], .both),
      (.entry [] ⟨["pm", "nmesh"], .whole (-512)⟩ [], .feed)]
  last := .entry [] ⟨["run name"], .text "\u2028true "⟩ []

theorem File.overrides_read_back_sample : sampleFile.IsWritable ∧
    sampleFile.text = "# grid = 64\r\npm.nmesh=256 \n\t\r \u2003io.title=\"a = \"b\" # nan\"\r\n" ++
      "io..code=\"-012\"\x0c\r\npm.nmesh=-512\nrun name=\"\u2028true \"" ∧
    ArePrefixFree sampleFile.entries ∧
    ∃ es, applyAll (.map []) (ofLines sampleFile.text) = (.map es, .ok ()) ∧
      (Value.map es).get? ["pm", "nmesh"] = some (.whole (-512)) ∧
      (Value.map es).get? ["io", "title"] = some (.text "a = \"b\" # nan") ∧
      (Value.map es).get? ["io", "code"] = some (.text "-012") ∧
      (Value.map es).get? ["run name"] = some (.text "\u2028true ") ∧
      (Value.map es).get? ["pm", "grid"] = none := by
  have hwritable : sampleFile.IsWritable := by decide +kernel
  have hread := overrides_read_back hwritable
  have hnest : ArePrefixFree sampleFile.entries := by
    rw [ArePrefixFree]
    decide +kernel
  obtain ⟨es, happly, hstores⟩ := hread.applied hnest
  refine ⟨hwritable, by decide +kernel, hnest, es, happly, ?_, ?_, ?_, ?_, ?_⟩
  · have hkeys : Entry.keys ⟨["pm", "nmesh"], .whole (-512)⟩ = ["pm", "nmesh"] := by decide +kernel
    exact hkeys ▸ hstores.last (sampleFile.entries.take 3) _ (sampleFile.entries.drop 4) rfl
      (by decide +kernel)
  · have hkeys : Entry.keys ⟨["io", "title"], .text "a = \"b\" # nan"⟩ = ["io", "title"] := by
      decide +kernel
    exact hkeys ▸ hstores.last (sampleFile.entries.take 1) _ (sampleFile.entries.drop 2) rfl
      (by decide +kernel)
  · have hkeys : Entry.keys ⟨["io", "", "code"], .text "-012"⟩ = ["io", "code"] := by decide +kernel
    exact hkeys ▸ hstores.last (sampleFile.entries.take 2) _ (sampleFile.entries.drop 3) rfl
      (by decide +kernel)
  · have hkeys : Entry.keys ⟨["run name"], .text "\u2028true "⟩ = ["run name"] := by decide +kernel
    exact hkeys ▸ hstores.last (sampleFile.entries.take 4) _ [] rfl nofun
  · have hapart : ∀ e ∈ sampleFile.entries,
        ¬ e.keys <+: ["pm", "grid"] ∧ ¬ ["pm", "grid"] <+: e.keys := by decide +kernel
    exact hstores.beside _ (by decide) hapart

end BlockStep.Override
