import FlowSuite.Proofs.Condition.FirstOperator

/-!
# Chains of comparisons, read flat

A flat comparison has one operator, but a text may have more of them outside of brackets and quotes
(`FlatComparison.operators`). Only the first one is looked for. What stands behind it is the right side, whatever it
is: no text is too long to be a comparison (`FlatComparison.parse_append`), and a right side with an operator in it is
no number and no keyword, so that it becomes a string or is kept as it is (`Operand.ofText_of_operator`). This way a
conjunction of comparisons is read as one comparison (`FlatComparison.not_oneOperator_conjunction`); a text has one
operator exactly if there is none in its right side (`FlatComparison.operators_of_parse`).
-/

namespace FlowSuite

/-! ## Texts that are no numbers -/

namespace Decimal

variable {c : Char} {cs : List Char}

theorem mem_splitSign (h : c ∈ cs) (hminus : c ≠ '-') (hplus : c ≠ '+') : c ∈ (splitSign cs).2 := by
  unfold splitSign
  split <;> simp_all

theorem readInt?_eq_none (h : c ∈ cs) (hdigit : ¬c.isDigit) (hminus : c ≠ '-') (hplus : c ≠ '+') :
    readInt? cs = none := by
  have hmem := mem_splitSign h hminus hplus
  have hread : readNat? 10 (splitSign cs).2 = none := by
    obtain ⟨d, ds, hds⟩ := List.exists_cons_of_ne_nil (List.ne_nil_of_mem hmem)
    rw [hds] at hmem ⊢
    exact readDigits?_eq_none hmem hdigit 0
  simp [readInt?, hread]

theorem readPower?_eq_none (h : c ∈ cs) (hdigit : ¬c.isDigit) (hother : c ∉ ['-', '+', 'e', 'E']) :
    readPower? cs = none := by
  simp only [List.mem_cons, List.not_mem_nil, or_false, not_or] at hother
  obtain ⟨hminus, hplus, he, hE⟩ := hother
  cases cs with
  | nil => cases h
  | cons d cs =>
    rw [readPower?]
    split
    · next hd =>
      rcases List.mem_cons.mp h with rfl | h
      · exact (hd.elim he hE).elim
      · exact readInt?_eq_none h hdigit hminus hplus
    · rfl

theorem mem_dropWhile_isDigit (h : c ∈ cs) (hdigit : ¬c.isDigit) : c ∈ cs.dropWhile Char.isDigit := by
  rw [← List.takeWhile_append_dropWhile (p := Char.isDigit) (l := cs), List.mem_append] at h
  exact h.resolve_left fun htake => hdigit (List.mem_takeWhile_imp htake)

/-- A decimal number consists of digits, signs, a point and the letter of its power of ten. -/
theorem readBinary64?_eq_none_of_mem (h : c ∈ cs) (hdigit : ¬c.isDigit) (hother : c ∉ ['-', '+', '.', 'e', 'E']) :
    readBinary64? cs = none := by
  have hpoint : c ≠ '.' := by
    rintro rfl
    exact hother (by decide)
  have hpower : ∀ {rest : List Char}, c ∈ rest → readPower? rest = none := fun hrest =>
    readPower?_eq_none hrest hdigit (by simp_all)
  have hmem : c ∈ (splitSign cs).2.dropWhile Char.isDigit :=
    mem_dropWhile_isDigit (mem_splitSign h (by simp_all) (by simp_all)) hdigit
  unfold readBinary64?
  simp only
  split
  · next hread =>
    split at hread
    · next rest heq =>
      rw [heq, List.mem_cons] at hmem
      rw [hpower (mem_dropWhile_isDigit (hmem.resolve_left hpoint) hdigit)] at hread
      cases hread
    · rw [hpower hmem] at hread
      cases hread
  · rfl

end Decimal

/-! ## What a side with an operator is read as -/

/-- A side with an operator in it is a string, or a text that starts with `$`. -/
theorem Operand.ofText_of_operator {text : List Char} {c : Char} (h : c ∈ text)
    (hc : FlatComparison.beginsOperator c) : ∃ s, ofText text = .literal (.string s) ∨ ofText text = .runtime s := by
  have hcases : c = '=' ∨ c = '!' ∨ c = '<' ∨ c = '>' := by simpa [FlatComparison.beginsOperator] using hc
  have hblank : ¬Text.isBlank c := by rcases hcases with rfl | rfl | rfl | rfl <;> decide
  have hdigit : ¬c.isDigit := by rcases hcases with rfl | rfl | rfl | rfl <;> decide
  have hother : c ∉ ['-', '+', '.', 'e', 'E'] := by rcases hcases with rfl | rfl | rfl | rfl <;> decide
  have hkeyword : c ∉ "true".toList ∧ c ∉ "false".toList ∧ c ∉ "null".toList := by
    rcases hcases with rfl | rfl | rfl | rfl <;> decide
  have htrim : c ∈ Text.trim text := (Text.mem_trim_iff hblank).mpr h
  simp only [ofText]
  generalize Text.trim text = cs at htrim
  split
  · exact ⟨_, .inr rfl⟩
  rw [if_neg (by rintro rfl; exact hkeyword.1 htrim), if_neg (by rintro rfl; exact hkeyword.2.1 htrim),
    if_neg (by rintro rfl; exact hkeyword.2.2 htrim)]
  split
  · exact ⟨_, .inl rfl⟩
  · exact ⟨_, .inl rfl⟩
  · have hint : Decimal.readInt? cs = none :=
      Decimal.readInt?_eq_none htrim hdigit (by simp_all) (by simp_all)
    refine ⟨String.ofList cs, .inl ?_⟩
    rw [ofBare, Decimal.readInt64?, hint, Decimal.readBinary64?_eq_none_of_mem htrim hdigit hother]
    rfl

namespace FlatComparison

variable {p : Place} {text before behind cs : List Char} {op : Comparison}

/-! ## All operators of a text -/

/-- An operator and the text behind it are shorter than the whole text. -/
theorem length_behind_lt (h : topLevel? text = some (before, op, behind)) : behind.length < text.length := by
  have hsymbol := length_symbol_pos op
  rw [(topLevel?_eq_some_iff.mp h).1, List.length_append, List.length_append]
  omega

/-- The operators of a text outside of brackets and quotes, one behind the other. -/
def operators (text : List Char) : List Comparison :=
  match _h : topLevel? text with
  | none => []
  | some (_, op, behind) => op :: operators behind
termination_by text.length
decreasing_by exact length_behind_lt _h

theorem operators_eq_cons (h : topLevel? text = some (before, op, behind)) :
    operators text = op :: operators behind := by
  rw [operators]
  split
  · next hnone => cases h.symm.trans hnone
  · next hsome => cases h.symm.trans hsome; rfl

theorem operators_eq_nil_iff : operators text = [] ↔ find? text = none := by
  rw [find?_eq_none_iff, operators]
  split <;> simp_all

/-! ## What stands behind a comparison -/

/-- Two characters tell which operator it is. -/
theorem operatorAt?_append (h : 2 ≤ cs.length) (tail : List Char) : operatorAt? (cs ++ tail) = operatorAt? cs := by
  obtain ⟨c, d, cs, rfl⟩ : ∃ c d ds, cs = c :: d :: ds := by
    match cs, h with
    | c :: d :: ds, _ => exact ⟨c, d, ds, rfl⟩
  have hsame : ∀ op : Comparison, op.symbol.toList.isPrefixOf (c :: d :: cs ++ tail) =
      op.symbol.toList.isPrefixOf (c :: d :: cs) := by
    intro op
    cases op <;> rfl
  simp only [operatorAt?, hsame]

theorem two_le_length (h : splitFrom p text = some (before, op, behind)) (hbehind : behind ≠ []) :
    2 ≤ text.length := by
  have hsymbol := length_symbol_pos op
  have hpos := List.length_pos_iff.mpr hbehind
  rw [(splitFrom_eq_some h).1, List.length_append, List.length_append]
  omega

theorem splitFrom_append (h : splitFrom p text = some (before, op, behind)) (hbehind : behind ≠ [])
    (tail : List Char) : splitFrom p (text ++ tail) = some (before, op, behind ++ tail) := by
  induction text generalizing p before with
  | nil => cases h
  | cons c cs ih =>
    have hsame := operatorAt?_append (two_le_length h hbehind) tail
    by_cases hhere : p = .outside 0 → operatorAt? (c :: cs) = none
    · rw [splitFrom_cons hhere, Option.map_eq_some_iff] at h
      obtain ⟨⟨before, found⟩, hfound, heq⟩ := h
      cases heq
      have hhere' : p = .outside 0 → operatorAt? (c :: (cs ++ tail)) = none := fun hp => hsame.trans (hhere hp)
      rw [List.cons_append, splitFrom_cons hhere', ih hfound]
      rfl
    · obtain ⟨rfl, hne⟩ := Classical.not_imp.mp hhere
      obtain ⟨found, hop⟩ := Option.ne_none_iff_exists'.mp hne
      have hle : found.symbol.length ≤ (c :: cs).length := by
        rw [← String.length_toList]
        exact (prefix_of_operatorAt? hop).length_le
      rw [splitFrom.eq_2 _ _ _ hop] at h
      cases h
      rw [List.cons_append, splitFrom.eq_2 c (cs ++ tail) op (hsame.trans hop), ← List.cons_append,
        List.drop_append_of_le_length hle]

/-- **Whatever stands behind a comparison belongs to its right side.** -/
theorem parse_append {text : String} {before behind : List Char} {found : FlatComparison}
    (htop : topLevel? text.toList = some (before, found.operator, behind)) (h : parse text = .ok found)
    (tail : String) : parse (text ++ tail) = .ok { found with right := .ofText (behind ++ tail.toList) } := by
  obtain ⟨_, _, htop', hbefore, hbehind, hleft, hright⟩ := parse_eq_ok_iff.mp h
  cases htop.symm.trans htop'
  have hne : behind ≠ [] := by
    rintro rfl
    exact hbehind rfl
  refine parse_eq_ok_iff.mpr ⟨before, behind ++ tail.toList, ?_, hbefore, ?_, hleft, rfl⟩
  · rw [String.toList_append]
    exact splitFrom_append htop hne _
  · rw [Text.trim_ne_nil_iff] at hbehind ⊢
    obtain ⟨c, hc, hblank⟩ := hbehind
    exact ⟨c, List.mem_append_left _ hc, hblank⟩

/-- **All operators of a text but the first are in the right side of its comparison.** So there is one alone exactly if
the right side has none; else that side is read as a string or kept as it is. Nothing behind a comparison is ever
refused. -/
theorem operators_of_parse {text : String} {found : FlatComparison} (h : parse text = .ok found) : ∃ before behind,
    text.toList = before ++ (found.operator.symbol.toList ++ behind) ∧ found.right = .ofText behind ∧
      operators text.toList = found.operator :: operators behind ∧
      ((operators text.toList).length = 1 ↔ find? behind = none) ∧
      (find? behind ≠ none → ∃ s, found.right = .literal (.string s) ∨ found.right = .runtime s) ∧
      ∀ tail : String, parse (text ++ tail) = .ok { found with right := .ofText (behind ++ tail.toList) } := by
  obtain ⟨before, behind, htop, -, -, -, hright⟩ := parse_eq_ok_iff.mp h
  have hoperators := operators_eq_cons htop
  refine ⟨before, behind, (topLevel?_eq_some_iff.mp htop).1, hright, hoperators, ?_, fun hfind => ?_,
    parse_append htop h⟩
  · rw [hoperators, List.length_cons, Nat.add_eq_right, List.length_eq_zero_iff, operators_eq_nil_iff]
  · obtain ⟨⟨before', op, behind'⟩, hfound⟩ := Option.ne_none_iff_exists'.mp (mt find?_eq_none_iff.mpr hfind)
    obtain ⟨hbehind, -⟩ := topLevel?_eq_some_iff.mp hfound
    obtain ⟨c, hc⟩ := List.exists_mem_of_length_pos (length_symbol_pos op)
    rw [hright]
    exact Operand.ofText_of_operator (by simp [hbehind, hc]) (beginsOperator_of_mem_symbol hc)

/-- Two comparisons in one text. -/
def twoChecks : String := "$.a == 1 && $.b == 2"

/-- What two comparisons are read as. -/
def twoChecksRead : FlatComparison := ⟨.runtime "$.a", .eq, .literal (.string "1 && $.b == 2")⟩

theorem operators_of_parse_twoChecks : parse twoChecks = .ok twoChecksRead ∧ ∃ before behind,
    twoChecks.toList = before ++ (twoChecksRead.operator.symbol.toList ++ behind) ∧
      twoChecksRead.right = .ofText behind ∧
      operators twoChecks.toList = twoChecksRead.operator :: operators behind ∧
      ((operators twoChecks.toList).length = 1 ↔ find? behind = none) ∧
      (find? behind ≠ none → ∃ s, twoChecksRead.right = .literal (.string s) ∨ twoChecksRead.right = .runtime s) ∧
      ∀ tail : String,
        parse (twoChecks ++ tail) = .ok { twoChecksRead with right := .ofText (behind ++ tail.toList) } :=
  ⟨by decide, operators_of_parse (by decide)⟩

/-- A text that is read as a comparison can have two operators: a conjunction becomes a comparison with a string. -/
theorem not_oneOperator_conjunction : ¬∀ (text : String) (found : FlatComparison), parse text = .ok found →
    (operators text.toList).length = 1 := by
  intro h
  have hone := h twoChecks twoChecksRead (by decide)
  have htop : topLevel? twoChecks.toList = some ("$.a ".toList, .eq, " 1 && $.b == 2".toList) := by decide
  have htop' : topLevel? " 1 && $.b == 2".toList = some (" 1 && $.b ".toList, .eq, " 2".toList) := by decide
  rw [operators_eq_cons htop, operators_eq_cons htop'] at hone
  exact absurd hone (by simp)

end FlatComparison

end FlowSuite
