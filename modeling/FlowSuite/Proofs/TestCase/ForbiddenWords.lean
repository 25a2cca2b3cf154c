import FlowSuite.Proofs.Script.Lexemes
import FlowSuite.Proofs.TestCase.FreshNames

/-!
# Words that cannot name a constant

No constant gets a reserved word of the language as its name: `bindable` puts an underscore in front of them, and no
reserved word holds an underscore or a digit.

A module is strict code, where the words of `strictWords` cannot name a constant either. `bindable` leaves these as they
are, and makes them of no other name (`bindable_mem_strictWords_iff`). So one of them names a constant exactly if it is
the name of the parameter and not taken.
-/

namespace FlowSuite

namespace Script

/-- The words that cannot name a constant in strict code, besides the reserved words. -/
def strictWords : List String :=
  ["implements", "interface", "package", "private", "protected", "public", "static", "eval", "arguments"]

variable {name word : List Char}

/-! ## Names that stay as they are -/

theorem masked_eq_self (h : ∀ c ∈ name, isIdentifierChar c) : masked name = name := by
  rw [masked, List.map_congr_left fun c hc => if_pos (h c hc), List.map_id']

/-- Where no underscore is, nothing was masked. -/
theorem masked_eq_self_of_not_mem (h : '_' ∉ masked name) : masked name = name := by
  refine masked_eq_self fun c hc => ?_
  by_contra hchar
  exact h (List.mem_map.mpr ⟨c, hc, if_neg hchar⟩)

theorem started_eq_self (h : isIdentifier word) : started word = word := by
  cases word with
  | nil => cases h
  | cons c cs =>
    simp only [isIdentifier, Bool.and_eq_true] at h
    have hdigit : ¬c.isDigit := fun hd => Lexeme.not_isIdentifierStart_of_isDigit hd h.1
    rw [started, if_neg hdigit]

theorem started_cases (word : List Char) : started word = word ∨ started word = '_' :: word := by
  cases word with
  | nil => exact .inr rfl
  | cons c cs =>
    rw [started]
    split
    · exact .inr rfl
    · exact .inl rfl

/-- An underscore stands in front, or the name is only masked. -/
theorem bindable_cases (name : List Char) : (∃ cs, bindable name = '_' :: cs) ∨ bindable name = masked name := by
  simp only [bindable]
  split
  · exact .inl ⟨_, rfl⟩
  · exact (started_cases (masked name)).symm.imp (fun h => ⟨_, h⟩) id

/-- A word that is not reserved and has no underscore is made of itself only. -/
theorem bindable_eq_iff (hword : isIdentifier word) (hfree : String.ofList word ∉ reservedWords) (hplain : '_' ∉ word) :
    bindable name = word ↔ name = word := by
  constructor
  · intro h
    rcases bindable_cases name with ⟨cs, hcs⟩ | hmasked
    · rw [← h, hcs] at hplain
      exact absurd List.mem_cons_self hplain
    · rw [h] at hmasked
      rw [hmasked] at hplain ⊢
      exact (masked_eq_self_of_not_mem hplain).symm
  · rintro rfl
    have hmasked : masked name = name := masked_eq_self (List.all_eq_true.mp (all_isIdentifierChar hword))
    simp only [bindable]
    rw [hmasked, started_eq_self hword, if_neg hfree]

/-! ## Words -/

/-- No name is made a reserved word. -/
theorem bindable_not_mem_reservedWords (name : List Char) : String.ofList (bindable name) ∉ reservedWords := by
  have hplain : ∀ w ∈ reservedWords, w.toList.head? ≠ some '_' := by decide
  simp only [bindable]
  split
  · exact fun hmem => hplain _ hmem (by rw [String.toList_ofList]; rfl)
  · assumption

/-- A name is made one of the words that strict code forbids besides exactly if it is this word. -/
theorem bindable_eq_iff_of_mem {name w : String} (hw : w ∈ strictWords) :
    String.ofList (bindable name.toList) = w ↔ name = w := by
  have hwords : ∀ w ∈ strictWords, isIdentifier w.toList ∧ String.ofList w.toList ∉ reservedWords ∧ '_' ∉ w.toList := by
    decide
  obtain ⟨hword, hfree, hplain⟩ := hwords w hw
  rw [← String.toList_inj, String.toList_ofList, bindable_eq_iff hword hfree hplain, String.toList_inj]

theorem bindable_mem_strictWords_iff {name : String} :
    String.ofList (bindable name.toList) ∈ strictWords ↔ name ∈ strictWords := by
  constructor
  · intro h
    rwa [← (bindable_eq_iff_of_mem h).mp rfl] at h
  · intro h
    rwa [(bindable_eq_iff_of_mem h).mpr rfl]

end Script

/-! ## Names of constants -/

/-- A word without digits does not end in a number. -/
theorem append_toString_not_mem {words : List String} (h : words.all fun w => !w.toList.any Char.isDigit)
    (base : String) (n : Nat) : base ++ toString n ∉ words := by
  intro hmem
  obtain ⟨d, ds, hds⟩ := List.exists_cons_of_ne_nil (Nat.toDigits_ne_nil (n := n) (b := 10))
  have hd : d ∈ Nat.toDigits 10 n := by simp [hds]
  have hlast : d ∈ (base ++ toString n).toList := by
    rw [String.toList_append, Nat.toString_eq_ofList_toDigits, String.toList_ofList]
    exact List.mem_append_right _ hd
  have hdigit : (base ++ toString n).toList.any Char.isDigit :=
    List.any_eq_true.mpr ⟨d, hlast, Nat.isDigit_of_mem_toDigits (by decide) (by decide) hd⟩
  have hnone : (!(base ++ toString n).toList.any Char.isDigit) = true := List.all_eq_true.mp h _ hmem
  rw [hdigit] at hnone
  cases hnone

/-- A word without digits names a constant exactly if the name of the parameter is made that word and is not taken. -/
theorem bindingName_mem_iff {words : List String} (h : words.all fun w => !w.toList.any Char.isDigit) (name : String)
    (taken : List String) : bindingName name taken ∈ words ↔
      String.ofList (Script.bindable name.toList) ∈ words ∧ String.ofList (Script.bindable name.toList) ∉ taken := by
  simp only [bindingName]
  split
  · next htaken =>
    obtain ⟨k, hk⟩ := exists_numbered taken (String.ofList (Script.bindable name.toList)) taken.length 2
    simp only [hk, append_toString_not_mem h, htaken, not_true, and_false]
  · next htaken => simp only [htaken, not_false_eq_true, and_true]

/-- **Of the words that cannot name a constant only those that strict code adds name one**, and each of them only for a
parameter of this very name, where it is not taken. -/
theorem forbidden_bindingName_iff (name : String) (taken : List String) :
    (String.ofList (Script.bindable name.toList) ∉ Script.reservedWords ∧
        bindingName name taken ∉ Script.reservedWords) ∧
      (String.ofList (Script.bindable name.toList) ∈ Script.strictWords ↔ name ∈ Script.strictWords) ∧
      (bindingName name taken ∈ Script.strictWords ↔ name ∈ Script.strictWords ∧ name ∉ taken) := by
  have hreserved := Script.bindable_not_mem_reservedWords name.toList
  have hstrict : String.ofList (Script.bindable name.toList) ∈ Script.strictWords ↔ name ∈ Script.strictWords :=
    Script.bindable_mem_strictWords_iff
  refine ⟨⟨hreserved, ?_⟩, hstrict, ?_⟩
  · rw [bindingName_mem_iff (by decide)]
    exact fun h => hreserved h.1
  · rw [bindingName_mem_iff (by decide), hstrict]
    refine and_congr_right fun h => ?_
    rw [(Script.bindable_eq_iff_of_mem h).mpr rfl]

/-- A parameter that is named by a word of strict code gets that word as its constant. -/
theorem not_allowed_package : ¬∀ (name : String) (taken : List String),
    (String.ofList (Script.bindable name.toList) ∉ Script.reservedWords ++ Script.strictWords) ∧
      bindingName name taken ∉ Script.reservedWords ++ Script.strictWords := by
  intro h
  exact absurd (h "package" stepLocals).2 (by decide)

end FlowSuite
