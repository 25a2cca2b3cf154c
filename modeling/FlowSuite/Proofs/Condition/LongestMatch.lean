import FlowSuite.Proofs.Condition.Spellings

/-!
# Longest matches

A rule that takes a lexeme takes at least that lexeme wherever it stands (`Rule.Keeps`, `keeps_rules`). So the longest
match at a place depends on little of what follows it:

* it stays the longest match where the text is cut off anywhere behind it (`next_cut`);
* it stays the longest match where a blank follows it, whatever stands behind the blank (`next_blank`). Only strings
  have blanks inside (`string_of_not_isPlain`), and a string ends at its closing quote.
-/

namespace FlowSuite.Lexer

/-! ## Every rule keeps what it takes -/

/-- Takes from every text with one of its lexemes in front at least that lexeme. -/
def Rule.Keeps (rule : Rule) : Prop :=
  ∀ {cs lexeme}, rule cs = some lexeme → ∀ rest, ∃ taken, rule (lexeme ++ rest) = some taken ∧ lexeme <+: taken

/-- Takes from every text with one of its lexemes in front exactly that lexeme. -/
def Rule.Closes (rule : Rule) : Prop :=
  ∀ {cs lexeme}, rule cs = some lexeme → ∀ rest, rule (lexeme ++ rest) = some lexeme

theorem Rule.Closes.keeps {rule : Rule} (h : rule.Closes) : rule.Keeps := by
  intro cs lexeme htaken rest
  exact ⟨lexeme, h htaken rest, List.prefix_refl lexeme⟩

theorem keeps_exactly (lexeme : List Char) : Rule.Keeps (exactly lexeme) := by
  intro cs taken h rest
  obtain rfl := exactly_eq_some h
  refine ⟨taken, ?_, List.prefix_refl taken⟩
  rw [exactly, if_pos (List.isPrefixOf_iff_prefix.mpr (List.prefix_append taken rest))]

theorem keeps_word : Rule.Keeps word := by
  intro cs lexeme h rest
  unfold word at h
  split at h
  · next c cs =>
    split at h
    · next hc =>
      cases h
      refine ⟨c :: (cs.takeWhile isWordChar ++ rest.takeWhile isWordChar), ?_, List.prefix_append (c :: _) _⟩
      rw [List.cons_append, word, if_pos hc,
        List.takeWhile_append_of_pos fun d hd => List.all_eq_true.mp List.all_takeWhile d hd]
    · cases h
  · cases h

/-- Digits go on over digits. -/
theorem int_append {digits : List Char} (hne : digits ≠ []) (h : ∀ c ∈ digits, c.isDigit) (rest : List Char) :
    int (digits ++ rest) = some (digits ++ rest.takeWhile Char.isDigit) := by
  rw [int, List.takeWhile_append_of_pos h, if_neg (by simp [hne])]

theorem keeps_int : Rule.Keeps int := by
  intro cs lexeme h rest
  obtain ⟨rfl, hne⟩ := int_eq_some h
  exact ⟨_, int_append hne mem_takeWhile_isDigit rest, List.prefix_append _ _⟩

theorem keeps_float : Rule.Keeps float := by
  intro cs lexeme h rest
  obtain ⟨whole, _, places, _, hplaces, rfl, hne, hwhole⟩ := float_eq_some h
  obtain ⟨taken, htaken, hkept⟩ := keeps_int hplaces rest
  have hdot : ¬('.' : Char).isDigit := by decide
  have hint : int (whole ++ '.' :: (places ++ rest)) = some whole := by
    rw [int_append hne hwhole, List.takeWhile_cons_of_neg hdot, List.append_nil]
  have hdrop : (whole ++ '.' :: (places ++ rest)).dropWhile Char.isDigit = '.' :: (places ++ rest) := by
    rw [List.dropWhile_append_of_pos hwhole, List.dropWhile_cons_of_neg hdot]
  refine ⟨whole ++ '.' :: taken, ?_, (List.prefix_append_right_inj whole).mpr (List.cons_prefix_cons.mpr ⟨rfl, hkept⟩)⟩
  simp only [List.append_assoc, List.cons_append, float, hint, hdrop, htaken, Option.map_some]

/-- The elements of a string that closes are the same whatever stands behind its closing quote. -/
theorem stringElements_append {cs tail : List Char} (h : cs = stringElements cs ++ '"' :: tail) (rest : List Char) :
    stringElements (stringElements cs ++ '"' :: rest) = stringElements cs := by
  induction cs using stringElements.induct with
  | case1 cs =>
    rw [stringElements, if_pos rfl] at h
    exact absurd (List.cons.inj h).1 (by decide)
  | case2 c cs hc ih =>
    rw [stringElements, if_neg hc] at h ⊢
    rw [List.cons_append, List.cons_append, stringElements, if_neg hc,
      ih (List.cons.inj (List.cons.inj h).2).2]
  | case3 c cs hpair hc =>
    rw [stringElements.eq_2 c cs hpair, if_pos hc] at h ⊢
    rw [List.nil_append, stringElements.eq_2 '"' rest (by intro _ _ he; cases he), if_pos (.inl rfl)]
  | case4 c cs hpair hc ih =>
    rw [stringElements.eq_2 c cs hpair, if_neg hc] at h ⊢
    have hpair' : ∀ d ds, c = '\\' → stringElements cs ++ '"' :: rest = d :: ds → False :=
      fun _ _ he _ => hc (.inr he)
    rw [List.cons_append, stringElements.eq_2 c _ hpair', if_neg hc, ih (List.cons.inj h).2]
  | case5 => cases h

theorem closes_doubleQuoted : Rule.Closes doubleQuoted := by
  intro cs lexeme h rest
  obtain ⟨inside, tail, rfl, hinside, rfl⟩ := doubleQuoted_eq_some h
  have helements := stringElements_append hinside rest
  rw [List.cons_append, List.cons_append, List.append_assoc, List.singleton_append, doubleQuoted, helements,
    List.drop_left]
  rfl

theorem closes_singleQuoted : Rule.Closes singleQuoted := by
  intro cs lexeme h rest
  obtain ⟨inner, tail, rfl, rfl, hinner⟩ := singleQuoted_eq_some h
  have hquiet : ∀ c ∈ inner, decide (c ≠ '\'') := by
    intro c hc
    exact decide_eq_true fun he => hinner (he ▸ hc)
  have htake : (inner ++ '\'' :: rest).takeWhile (· ≠ '\'') = inner := by
    rw [List.takeWhile_append_of_pos hquiet, List.takeWhile_cons_of_neg (by decide), List.append_nil]
  have hdrop : (inner ++ '\'' :: rest).dropWhile (· ≠ '\'') = '\'' :: rest := by
    rw [List.dropWhile_append_of_pos hquiet, List.dropWhile_cons_of_neg (by decide)]
  rw [List.cons_append, List.cons_append, List.append_assoc, List.singleton_append, singleQuoted, hdrop, htake]
  rfl

theorem runtimeTail_kept (part : RuntimePart) (cs rest : List Char) :
    runtimeTail part cs <+: runtimeTail part (runtimeTail part cs ++ rest) := by
  induction cs generalizing part with
  | nil => exact List.nil_prefix
  | cons c cs ih =>
    by_cases hcontinues : part.continues c
    · rw [runtimeTail, if_pos hcontinues, List.cons_append, runtimeTail, if_pos hcontinues]
      exact List.cons_prefix_cons.mpr ⟨rfl, ih part⟩
    by_cases hhash : c = '#'
    · rw [runtimeTail, if_neg hcontinues, if_pos hhash, List.cons_append, runtimeTail, if_neg hcontinues, if_pos hhash]
      exact List.cons_prefix_cons.mpr ⟨rfl, ih .hash⟩
    by_cases hslash : c = '/' ∧ part.inPointer
    · rw [runtimeTail, if_neg hcontinues, if_neg hhash, if_pos hslash, List.cons_append, runtimeTail,
        if_neg hcontinues, if_neg hhash, if_pos hslash]
      exact List.cons_prefix_cons.mpr ⟨rfl, ih .key⟩
    by_cases hdot : c = '.' ∧ cs.head?.any isSegmentChar
    · -- the character behind the point continues the segment, so it is kept there
      have hdot' : c = '.' ∧ (runtimeTail .segment cs ++ rest).head?.any isSegmentChar := by
        refine ⟨hdot.1, ?_⟩
        cases cs with
        | nil => exact absurd hdot.2 (by simp)
        | cons d ds =>
          have hd : isSegmentChar d := by simpa using hdot.2
          rw [runtimeTail, if_pos (show RuntimePart.segment.continues d from hd)]
          simpa using hd
      rw [runtimeTail, if_neg hcontinues, if_neg hhash, if_neg hslash, if_pos hdot, List.cons_append, runtimeTail,
        if_neg hcontinues, if_neg hhash, if_neg hslash, if_pos hdot']
      exact List.cons_prefix_cons.mpr ⟨rfl, ih .segment⟩
    · rw [runtimeTail, if_neg hcontinues, if_neg hhash, if_neg hslash, if_neg hdot]
      exact List.nil_prefix

theorem keeps_runtime : Rule.Keeps runtime := by
  intro cs lexeme h rest
  unfold runtime at h
  split at h
  · next c cs =>
    split at h
    · next hc =>
      cases h
      refine ⟨'$' :: c :: runtimeTail .word (runtimeTail .word cs ++ rest), ?_, List.cons_prefix_cons.mpr
        ⟨rfl, List.cons_prefix_cons.mpr ⟨rfl, runtimeTail_kept .word cs rest⟩⟩⟩
      rw [List.cons_append, List.cons_append, runtime, if_pos hc]
    · cases h
  · cases h

/-- **Every rule keeps what it takes.** -/
theorem keeps_rules : ∀ entry ∈ rules, entry.2.Keeps := by
  have hdouble : Rule.Keeps doubleQuoted := closes_doubleQuoted.keeps
  have hsingle : Rule.Keeps singleQuoted := closes_singleQuoted.keeps
  simp only [rules, List.forall_mem_cons, keeps_exactly, keeps_word, keeps_int, keeps_float, hdouble, hsingle,
    keeps_runtime, List.not_mem_nil, false_imp_iff, implies_true, and_self]

/-- More text lets a rule take more. -/
theorem Rule.Keeps.exists_of_longer {rule : Rule} (h : rule.Keeps) (hfront : rule.TakesFront)
    {cs more lexeme : List Char} (htaken : rule cs = some lexeme) (hcs : cs <+: more) :
    ∃ taken, rule more = some taken ∧ lexeme <+: taken := by
  obtain ⟨rest, rfl⟩ := (hfront htaken).2.trans hcs
  exact h htaken rest

/-- What a rule takes is what it takes where the text is cut off behind that. -/
theorem Rule.Keeps.eq_of_cut {rule : Rule} (h : rule.Keeps) (hfront : rule.TakesFront) {cs more lexeme : List Char}
    (htaken : rule more = some lexeme) (hlexeme : lexeme <+: cs) (hcs : cs <+: more) : rule cs = some lexeme := by
  obtain ⟨rest, rfl⟩ := hlexeme
  obtain ⟨taken, htaken', hle⟩ := h htaken rest
  obtain ⟨_, hmore, hle'⟩ := h.exists_of_longer hfront htaken' hcs
  cases hmore.symm.trans htaken
  rw [htaken', hle.eq_of_length_le hle'.length_le]

/-! ## Longest matches -/

/-- The longest match is as long as what any rule takes. -/
theorem exists_longest?_of_mem {rs : List (TokenKind × Rule)} {kind : TokenKind} {rule : Rule}
    (hmem : (kind, rule) ∈ rs) {cs lexeme : List Char} (htaken : rule cs = some lexeme) :
    ∃ best longest, longest? rs cs = some (best, longest) ∧ lexeme.length ≤ longest.length := by
  induction rs with
  | nil => cases hmem
  | cons entry more ih =>
    rcases List.mem_cons.mp hmem with rfl | hmem
    · rw [longest?, htaken]
      cases longest? more cs with
      | none => exact ⟨kind, lexeme, rfl, Nat.le_refl _⟩
      | some found =>
        dsimp only
        split
        · next hlt => exact ⟨found.1, found.2, rfl, Nat.le_of_lt hlt⟩
        · exact ⟨kind, lexeme, rfl, Nat.le_refl _⟩
    · obtain ⟨best, longest, hmore, hle⟩ := ih hmem
      rw [longest?, hmore]
      cases entry.2 cs with
      | none => exact ⟨best, longest, rfl, hle⟩
      | some first =>
        dsimp only
        split
        · exact ⟨best, longest, rfl, hle⟩
        · next hge => exact ⟨entry.1, first, rfl, by omega⟩

/-- Rules that take from the front and keep what they take. -/
def AreLawful (rs : List (TokenKind × Rule)) : Prop := ∀ entry ∈ rs, entry.2.TakesFront ∧ entry.2.Keeps

theorem areLawful_rules : AreLawful rules := fun entry hmem => ⟨takesFront_rules entry hmem, keeps_rules entry hmem⟩

variable {rs : List (TokenKind × Rule)} {cs more lexeme : List Char} {kind : TokenKind}

/-- What is the longest match in a part of a text is matched in the text as well, or something longer is. -/
theorem exists_longest?_of_cut (hrs : AreLawful rs) (hcs : cs <+: more)
    (h : longest? rs cs = some (kind, lexeme)) :
    ∃ best longest, longest? rs more = some (best, longest) ∧ lexeme.length ≤ longest.length := by
  obtain ⟨rule, hmem, htaken⟩ := mem_of_longest? h
  obtain ⟨hfront, hkeeps⟩ : rule.TakesFront ∧ rule.Keeps := hrs _ hmem
  obtain ⟨taken, htaken', hle⟩ := hkeeps.exists_of_longer hfront htaken hcs
  obtain ⟨best, longest, hlongest, hle'⟩ := exists_longest?_of_mem hmem htaken'
  exact ⟨best, longest, hlongest, Nat.le_trans hle.length_le hle'⟩

/-- The longest match is the same where the text is cut off behind it. -/
theorem longest?_cut (hrs : AreLawful rs) (hlexeme : lexeme <+: cs) (hcs : cs <+: more)
    (h : longest? rs more = some (kind, lexeme)) : longest? rs cs = some (kind, lexeme) := by
  induction rs with
  | nil => cases h
  | cons entry entries ih =>
    obtain ⟨⟨hfront, hkeeps⟩, hentries⟩ := List.forall_mem_cons.mp hrs
    rw [longest?] at h ⊢
    cases hmore : entry.2 more with
    | none =>
      have hcut : entry.2 cs = none := by
        rw [Option.eq_none_iff_forall_ne_some]
        intro taken htaken
        obtain ⟨_, htaken', _⟩ := hkeeps.exists_of_longer hfront htaken hcs
        cases htaken'.symm.trans hmore
      simp only [hmore] at h
      simp only [hcut, ih hentries h]
    | some first =>
      cases hlater : longest? entries more with
      | none =>
        simp only [hmore, hlater] at h
        cases h
        have hcut : longest? entries cs = none := by
          rw [Option.eq_none_iff_forall_ne_some]
          intro found hfound
          obtain ⟨_, _, hlater', _⟩ := exists_longest?_of_cut hentries hcs hfound
          cases hlater'.symm.trans hlater
        rw [hkeeps.eq_of_cut hfront hmore hlexeme hcs, hcut]
      | some found =>
        simp only [hmore, hlater] at h
        split at h
        · next hlt =>
          -- a later rule takes more than the first one, which takes no more where the text is cut off
          cases h
          have hcut := ih hentries hlater
          cases htaken : entry.2 cs with
          | none => simp only [hcut]
          | some taken =>
            obtain ⟨_, hfirst, hle⟩ := hkeeps.exists_of_longer hfront htaken hcs
            cases hfirst.symm.trans hmore
            have hlt' : taken.length < found.2.length := Nat.lt_of_le_of_lt hle.length_le hlt
            simp only [hcut, if_pos hlt']
        · next hge =>
          cases h
          rw [hkeeps.eq_of_cut hfront hmore hlexeme hcs]
          cases hcut : longest? entries cs with
          | none => rfl
          | some found' =>
            obtain ⟨_, _, hlater', hle⟩ := exists_longest?_of_cut hentries hcs hcut
            cases hlater'.symm.trans hlater
            have hge' : ¬lexeme.length < found'.2.length := by dsimp only at hge; omega
            simp only [if_neg hge']

theorem valid_of_mem_rules {rule : Rule} (h : (kind, rule) ∈ rules) : kind ≠ .invalid := by
  rintro rfl
  simp [rules] at h

/-- Something valid is next exactly if the rules have a longest match. -/
theorem next_eq_iff (hk : kind ≠ .invalid) :
    next cs = (kind, lexeme) ↔ longest? rules cs = some (kind, lexeme) := by
  unfold next
  cases longest? rules cs with
  | none => simpa using fun h : TokenKind.invalid = kind => absurd h.symm hk
  | some => simp

/-- **The next lexeme is the same where the text is cut off behind it.** -/
theorem next_cut (hk : kind ≠ .invalid) (h : next more = (kind, lexeme)) (hlexeme : lexeme <+: cs)
    (hcs : cs <+: more) : next cs = (kind, lexeme) := by
  rw [next_eq_iff hk] at h ⊢
  exact longest?_cut areLawful_rules hlexeme hcs h

/-! ## Blanks -/

/-- Is no blank and no quote. -/
def isPlain (c : Char) : Bool := ¬isBlank c ∧ c ≠ '"' ∧ c ≠ '\''

theorem isPlain_of_isOperandChar {c : Char} (h : isOperandChar c) : isPlain c := by
  have hne : ∀ d, ¬isOperandChar d → c ≠ d := by
    rintro d hd rfl
    exact hd h
  simp only [isPlain, isBlank, List.mem_cons, List.not_mem_nil, or_false, decide_eq_true_eq, not_or]
  exact ⟨⟨hne _ (by decide), hne _ (by decide), hne _ (by decide), hne _ (by decide), hne _ (by decide)⟩,
    hne _ (by decide), hne _ (by decide)⟩

/-- Only strings have blanks or quotes inside. -/
theorem string_of_not_isPlain (hk : kind ≠ .invalid) (h : next cs = (kind, lexeme)) {c : Char} (hc : c ∈ lexeme)
    (hplain : ¬isPlain c) : kind = .string := by
  refine Decidable.byContradiction fun hstring => hplain ?_
  by_cases hoperand : kind.isOperand
  · exact isPlain_of_isOperandChar ((spelling_of_next h hoperand).isOperandChar hstring c hc)
  · obtain ⟨rule, hmem, htaken⟩ := exists_rule_of_next h hk
    -- what is left are the rules of signs
    simp only [rules, List.mem_cons, Prod.mk.injEq, List.not_mem_nil, or_false] at hmem
    rcases hmem with h | h | h | h | h | h | h | h | h | h | h | h | h | h | h | h | h | h | h | h | h | h | h <;>
      · obtain ⟨rfl, rfl⟩ := h
        first
        | exact absurd rfl hoperand
        | rw [exactly_eq_some htaken] at hc; exact List.all_eq_true.mp rfl c hc

/-- A string in quotes of either kind. -/
def quoted : Rule := fun cs => doubleQuoted cs <|> singleQuoted cs

theorem quoted_cases (h : quoted cs = some lexeme) :
    doubleQuoted cs = some lexeme ∨ doubleQuoted cs = none ∧ singleQuoted cs = some lexeme := by
  unfold quoted at h
  cases hdouble : doubleQuoted cs with
  | none => exact .inr ⟨rfl, by simpa [hdouble] using h⟩
  | some => exact .inl (by simpa [hdouble] using h)

theorem closes_quoted : Rule.Closes quoted := by
  intro cs lexeme h rest
  rcases quoted_cases h with h | ⟨-, h⟩
  · simp [quoted, closes_doubleQuoted h rest]
  · have hdouble : doubleQuoted (lexeme ++ rest) = none := by
      obtain ⟨_, _, _, rfl, _⟩ := singleQuoted_eq_some h
      rfl
    simp [quoted, hdouble, closes_singleQuoted h rest]

/-- A quote is in front of a string. -/
theorem exists_quote (h : quoted cs = some lexeme) : ∃ quote tail, cs = quote :: tail ∧ ¬isPlain quote := by
  rcases quoted_cases h with h | ⟨-, h⟩
  · obtain ⟨inside, _, rfl, _⟩ := doubleQuoted_eq_some h
    exact ⟨'"', inside, rfl, by decide⟩
  · obtain ⟨inner, _, rfl, _⟩ := singleQuoted_eq_some h
    exact ⟨'\'', _, rfl, by decide⟩

theorem quoted_of_next (h : next cs = (.string, lexeme)) : quoted cs = some lexeme := by
  obtain ⟨rule, hmem, htaken⟩ := exists_rule_of_next h (by decide)
  simp only [rules, List.mem_cons, Prod.mk.injEq, reduceCtorEq, false_and, true_and, false_or, or_false,
    List.not_mem_nil] at hmem
  rcases hmem with rfl | rfl
  · simp [quoted, htaken]
  · have hdouble : doubleQuoted cs = none := by
      obtain ⟨_, _, rfl, _, _⟩ := singleQuoted_eq_some htaken
      rfl
    simp [quoted, hdouble, htaken]

theorem front_of_next (hk : kind ≠ .invalid) (h : next cs = (kind, lexeme)) : lexeme ≠ [] ∧ lexeme <+: cs := by
  obtain ⟨rule, hmem, htaken⟩ := exists_rule_of_next h hk
  exact takesFront_rules _ hmem htaken

/-- **The next lexeme is the same where nothing or a blank follows it**, whatever stands behind the blank. -/
theorem next_blank (hk : kind ≠ .invalid) (h : next cs = (kind, lexeme)) {rest : List Char}
    (hrest : ∀ b ∈ rest.head?, isBlank b) : next (lexeme ++ rest) = (kind, lexeme) := by
  obtain ⟨hne, hfront⟩ := front_of_next hk h
  have halone : next lexeme = (kind, lexeme) := next_cut hk h (List.prefix_refl lexeme) hfront
  rcases rest with _ | ⟨b, rest⟩
  · rwa [List.append_nil]
  have hb : isBlank b := hrest b rfl
  obtain ⟨best, longest, hbest, hle⟩ :=
    exists_longest?_of_cut areLawful_rules (List.prefix_append lexeme (b :: rest)) ((next_eq_iff hk).mp halone)
  have hbestk : best ≠ .invalid := by
    obtain ⟨rule, hmem, _⟩ := mem_of_longest? hbest
    exact valid_of_mem_rules hmem
  have hnext := (next_eq_iff hbestk).mpr hbest
  have hlongest := (front_of_next hbestk hnext).2
  rcases Nat.eq_or_lt_of_le hle with heq | hlt
  · have hsame := (List.prefix_of_prefix_length_le (List.prefix_append lexeme _) hlongest hle).eq_of_length heq
    subst hsame
    exact hnext.trans ((next_cut hbestk hnext (List.prefix_refl _) hlongest).symm.trans halone)
  · -- a longer lexeme has the blank inside, so both are strings, and of two strings neither goes on behind the other
    have hblank : b ∈ longest := by
      have hcut : lexeme ++ [b] <+: longest :=
        List.prefix_of_prefix_length_le ⟨rest, by simp⟩ hlongest (by rw [List.length_append]; exact hlt)
      exact hcut.subset (by simp)
    obtain rfl := string_of_not_isPlain hbestk hnext hblank (by simp [isPlain, hb])
    have hquoted := quoted_of_next hnext
    have hstring : kind = .string := by
      obtain ⟨quote, tail, heq, hquote⟩ := exists_quote hquoted
      obtain ⟨c, cs, rfl⟩ := List.exists_cons_of_ne_nil hne
      obtain ⟨rfl, _⟩ := List.cons.inj heq
      exact string_of_not_isPlain hk h List.mem_cons_self hquote
    subst hstring
    cases hquoted.symm.trans (closes_quoted (quoted_of_next h) _)
    exact absurd hlt (Nat.lt_irrefl _)

end FlowSuite.Lexer
