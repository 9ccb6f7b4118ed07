import BlockStep.Override
import BlockStep.Proofs.FileNames

namespace BlockStep

namespace Text

variable {blank : Char → Bool} {cs front back : List Char} {c : Char}

structure IsTight (cs : List Char) : Prop where
  first : ∀ c ∈ cs.head?, isBlank c = false
  last : ∀ c ∈ cs.getLast?, isBlank c = false

theorem isTight_iff : IsTight cs ↔
    cs.head?.any isBlank = false ∧ cs.getLast?.any isBlank = false := by
  have hany (o : Option Char) : o.any isBlank = false ↔ ∀ c ∈ o, isBlank c = false := by
    cases o <;> simp
  rw [hany, hany]
  exact ⟨fun ⟨hfirst, hlast⟩ => ⟨hfirst, hlast⟩, fun ⟨hfirst, hlast⟩ => ⟨hfirst, hlast⟩⟩

instance (cs : List Char) : Decidable (IsTight cs) := decidable_of_iff _ isTight_iff.symm

theorem dropWhile_of_head? {p : Char → Bool} (h : ∀ c ∈ cs.head?, p c = false) :
    cs.dropWhile p = cs := by
  cases cs with
  | nil => rfl
  | cons c cs => rw [List.dropWhile_cons_of_neg (by simp [h c rfl])]

theorem strip_surrounded (hfront : ∀ c ∈ front, isBlank c) (hback : ∀ c ∈ back, isBlank c)
    (h : IsTight cs) : strip (front ++ (cs ++ back)) = cs := by
  rw [strip, stripBy, List.dropWhile_append_of_pos hfront]
  cases cs with
  | nil =>
    rw [List.nil_append, ← List.append_nil back, List.dropWhile_append_of_pos hback]
    rfl
  | cons c cs =>
    have hlast : ∀ d ∈ (c :: cs).reverse.head?, isBlank d = false := by
      rw [List.head?_reverse]
      exact h.last
    have hfirst : (c :: (cs ++ back)).dropWhile isBlank = c :: (cs ++ back) :=
      dropWhile_of_head? h.first
    rw [List.cons_append, hfirst, ← List.cons_append, List.reverse_append,
      List.dropWhile_append_of_pos (by simpa using hback), dropWhile_of_head? hlast,
      List.reverse_reverse]

theorem strip_of_isTight (h : IsTight cs) : strip cs = cs := by
  have hstrip : strip ([] ++ (cs ++ [])) = cs := strip_surrounded nofun nofun h
  rwa [List.nil_append, List.append_nil] at hstrip

theorem IsTight.around (hfront : IsTight front) (hne : front ≠ []) (cs : List Char)
    (hback : IsTight back) (hne' : back ≠ []) : IsTight (front ++ (cs ++ back)) where
  first c hc := by
    obtain ⟨d, rest, rfl⟩ := List.exists_cons_of_ne_nil hne
    exact hfront.first c hc
  last c hc := by
    rw [List.getLast?_append, List.getLast?_append, List.getLast?_eq_some_getLast hne',
      Option.some_or, Option.some_or, ← List.getLast?_eq_some_getLast hne'] at hc
    exact hback.last c hc

theorem isDigit_iff : c.isDigit ↔ 48 ≤ c.toNat ∧ c.toNat ≤ 57 := by
  simp only [Char.isDigit, ge_iff_le, Bool.and_eq_true, decide_eq_true_eq, UInt32.le_iff_toNat_le]
  rfl

theorem isAsciiDigit_of_isDigit (h : c.isDigit) : isAsciiDigit c := h

theorem isBlank_of_isDigit (h : c.isDigit) : isBlank c = false := by
  have hrange := isDigit_iff.1 h
  simp only [isBlank, isWhite, blankRanges, List.any_cons, List.any_nil, Bool.or_false,
    Bool.or_eq_false_iff, Bool.and_eq_false_imp, decide_eq_true_eq, decide_eq_false_iff_not]
  omega

theorem plain_of_isDigit (h : c.isDigit) : plain c = c := by
  have hrange := isDigit_iff.1 h
  have hdigit : digit? c = some (c.toNat - 48) := by
    rw [digit?, zeros, List.find?_cons_of_pos (by simp; omega)]
    rfl
  rw [plain, hdigit]
  dsimp only
  rw [Nat.add_sub_cancel' hrange.1, Char.ofNat_toNat]

theorem not_le_of_isDigit (h : c.isDigit) (letter : Char) (hletter : 65 ≤ letter.toNat) :
    ¬ letter.val ≤ c.val := by
  have hlast : c.val.toNat ≤ 57 := (isDigit_iff.1 h).2
  have hfirst : 65 ≤ letter.val.toNat := hletter
  rw [UInt32.le_iff_toNat_le]
  omega

theorem toLower_of_isDigit (h : c.isDigit) : c.toLower = c :=
  dif_neg fun hupper => not_le_of_isDigit h 'A' (by decide) hupper.1

theorem isLower_of_isDigit (h : c.isDigit) : c.isLower = false := by
  rw [← Bool.not_eq_true]
  intro hlower
  have hleast := of_decide_eq_true (Bool.and_eq_true_iff.1 hlower).1
  exact not_le_of_isDigit h 'a' (by decide) hleast

theorem splitSign_of_ne (hminus : c ≠ '-') (hplus : c ≠ '+') :
    splitSign (c :: cs) = (false, c :: cs) := by
  rw [splitSign]
  · exact fun rest h => hminus (List.cons.inj h).1
  · exact fun rest h => hplus (List.cons.inj h).1

theorem ungrouped?_of_not_digit (h : isAsciiDigit c = false) : ungrouped? (c :: cs) = none := by
  unfold ungrouped?
  split
  next heq => cases heq
  next heq =>
    cases heq
    rw [h]
    rfl
  next heq =>
    cases heq
    rw [h]
    rfl
  next heq =>
    cases heq
    rw [h]
    rfl

theorem ungrouped?_digits (hne : cs ≠ []) (h : ∀ c ∈ cs, c.isDigit) : ungrouped? cs = some cs := by
  fun_induction ungrouped? cs with
  | case1 => cases hne rfl
  | case2 c hc => rfl
  | case3 c hc => exact absurd (isAsciiDigit_of_isDigit (h c List.mem_cons_self)) hc
  | case4 c rest hc ih =>
    exact absurd (h '_' (List.mem_cons_of_mem c List.mem_cons_self)) (by decide)
  | case5 c rest hc => exact absurd (isAsciiDigit_of_isDigit (h c List.mem_cons_self)) hc
  | case6 c rest hempty hother hc ih =>
    rw [ih hempty fun d hd => h d (List.mem_cons_of_mem c hd)]
    rfl
  | case7 c rest hempty hother hc =>
    exact absurd (isAsciiDigit_of_isDigit (h c List.mem_cons_self)) hc

theorem natOfDigits_toDigits (n : Nat) : natOfDigits (Nat.toDigits 10 n) = n :=
  Nat.ofDigitChars_ten_toDigits

theorem toList_toString (i : Int) :
    (toString i).toList = signOf i ++ Nat.toDigits 10 i.natAbs := by
  rw [Int.toString_eq_repr, Int.repr_eq_if, signOf]
  by_cases h : 0 ≤ i
  · rw [if_pos h, if_neg (by omega), Nat.toList_repr, List.nil_append]
    congr 1
    omega
  · rw [if_neg h, if_pos (by omega), String.toList_append, Nat.toList_repr]
    congr 2
    omega

theorem mem_toString {i : Int} (h : c ∈ (toString i).toList) : c = '-' ∨ c.isDigit := by
  rw [toList_toString, List.mem_append, signOf] at h
  rcases h with h | h
  · split at h
    · exact .inl (List.mem_singleton.1 h)
    · cases h
  · exact .inr (isDigit_of_mem_toDigits h)

theorem exists_last (i : Int) : ∃ c, (toString i).toList.getLast? = some c ∧ c.isDigit := by
  rw [toList_toString, List.getLast?_append, List.getLast?_eq_some_getLast Nat.toDigits_ne_nil,
    Option.some_or]
  exact ⟨_, rfl, isDigit_of_mem_toDigits (List.getLast_mem Nat.toDigits_ne_nil)⟩

theorem isTight_toString (i : Int) : IsTight (toString i).toList where
  first c hc := by
    rcases mem_toString (List.mem_of_head? hc) with rfl | h
    · decide
    · exact isBlank_of_isDigit h
  last c hc := by
    obtain ⟨d, hd, hdigit⟩ := exists_last i
    rw [hd] at hc
    cases hc
    exact isBlank_of_isDigit hdigit

theorem prepared_toString (i : Int) : prepared (toString i).toList = (toString i).toList := by
  rw [prepared, strip_of_isTight (isTight_toString i)]
  refine (List.map_congr_left fun c hc => ?_).trans (List.map_id _)
  rcases mem_toString hc with rfl | h
  · decide +kernel
  · exact plain_of_isDigit h

theorem splitSign_toString (i : Int) :
    splitSign (toString i).toList = (decide (i < 0), Nat.toDigits 10 i.natAbs) := by
  rw [toList_toString, signOf]
  split
  next h => rw [decide_eq_true h]; rfl
  next h =>
    obtain ⟨d, ds, hdigits⟩ := List.exists_cons_of_ne_nil
      (Nat.toDigits_ne_nil (b := 10) (n := i.natAbs))
    have hd : d.isDigit := isDigit_of_mem_toDigits (hdigits ▸ List.mem_cons_self)
    rw [decide_eq_false h, List.nil_append, hdigits, splitSign_of_ne]
    · rintro rfl
      cases hd
    · rintro rfl
      cases hd

theorem whole?_toString {i : Int} (h : (Nat.toDigits 10 i.natAbs).length ≤ longestWhole) :
    whole? (toString i).toList = some i := by
  have hdigits := ungrouped?_digits Nat.toDigits_ne_nil fun c =>
    isDigit_of_mem_toDigits (n := i.natAbs)
  rw [whole?, prepared_toString, splitSign_toString]
  simp only [hdigits, Nat.not_lt.2 h, if_false, natOfDigits_toDigits, decide_eq_true_eq]
  split
  · congr 1
    omega
  · congr 1
    omega

end Text

namespace Override

open Text

theorem word?_eq_none {s : String} {c : Char} (h : s.toList.getLast? = some c)
    (hc : c.isLower = false) : word? s = none := by
  have hne (t : String) (ht : t.toList.getLast?.any Char.isLower) : s ≠ t := by
    rintro rfl
    rw [h, Option.any_some, hc] at ht
    cases ht
  rw [word?]
  all_goals exact hne _ (by decide +kernel)

theorem word?_lowerAscii {cs : List Char} {c : Char} (h : cs.getLast? = some c)
    (hc : c.toLower.isLower = false) : word? (String.ofList (lowerAscii cs)) = none := by
  refine word?_eq_none ?_ hc
  rw [String.toList_ofList, lowerAscii, List.getLast?_map, h]
  rfl

theorem value_toString {i : Int} (h : (Nat.toDigits 10 i.natAbs).length ≤ longestWhole) :
    value (toString i).toList = .whole i := by
  obtain ⟨c, hc, hdigit⟩ := exists_last i
  have hlower : c.toLower.isLower = false := by
    rw [toLower_of_isDigit hdigit]
    exact isLower_of_isDigit hdigit
  have hword := word?_lowerAscii hc hlower
  simp only [value, strip_of_isTight (isTight_toString i), hword, whole?_toString h]

def quoted (cs : List Char) : List Char := '"' :: (cs ++ ['"'])

theorem getLast?_quoted (cs : List Char) : (quoted cs).getLast? = some '"' :=
  List.getLast?_concat (l := '"' :: cs)

theorem isTight_quoted (cs : List Char) : IsTight (quoted cs) where
  first c hc := by
    cases hc
    decide
  last c hc := by
    rw [getLast?_quoted] at hc
    cases hc
    decide

theorem prepared_quoted (cs : List Char) :
    ∃ rest, prepared (quoted cs) = '"' :: rest := by
  refine ⟨(cs ++ ['"']).map plain, ?_⟩
  rw [prepared, strip_of_isTight (isTight_quoted cs), quoted, List.map_cons]
  congr 1

theorem whole?_quoted (cs : List Char) : whole? (quoted cs) = none := by
  obtain ⟨rest, hrest⟩ := prepared_quoted cs
  rw [whole?, hrest, splitSign_of_ne (by decide) (by decide)]
  simp only [ungrouped?_of_not_digit (c := '"') rfl]

theorem named?_of_quote (rest : List Char) : named? ('"' :: rest) = none := by
  have hne (t : String) (ht : t.toList.head? ≠ some '"') :
      String.ofList (lowerAscii ('"' :: rest)) ≠ t := by
    rintro rfl
    rw [String.toList_ofList] at ht
    exact ht rfl
  rw [named?]
  split
  next h => exact absurd h (hne _ (by decide +kernel))
  next h => exact absurd h (hne _ (by decide +kernel))
  next h => exact absurd h (hne _ (by decide +kernel))
  next => rfl

theorem unsignedReal?_of_quote (rest : List Char) : unsignedReal? ('"' :: rest) = none := by
  have hrun : digitRun ('"' :: rest) = ([], '"' :: rest) := rfl
  rw [unsignedReal?, hrun]
  rfl

theorem real?_quoted (cs : List Char) : real? (quoted cs) = none := by
  obtain ⟨rest, hrest⟩ := prepared_quoted cs
  rw [real?, hrest, splitSign_of_ne (by decide) (by decide)]
  simp only [named?_of_quote, unsignedReal?_of_quote, Option.or_none]

theorem value_quoted (cs : List Char) : value (quoted cs) = .text (String.ofList cs) := by
  have hword := word?_lowerAscii (getLast?_quoted cs) rfl
  have hquoted : isQuotedBy '"' (quoted cs) = true := by
    rw [isQuotedBy, getLast?_quoted]
    rfl
  simp only [value, strip_of_isTight (isTight_quoted cs), hword, whole?_quoted,
    real?_quoted, hquoted, Bool.true_or, if_true]
  rw [quoted, List.drop_succ_cons, List.drop_zero, List.dropLast_concat]

end Override

end BlockStep
