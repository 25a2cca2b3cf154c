import FlowSuite.Proofs.Condition.Tokens

/-!
# Where tokens stand in a text

A text is blanks and lexemes, one after the other (`Scanned`), and each lexeme is what the rules take at its place. So
a text can be followed along its tokens (`scanned_tokenize`), and at every offset that no token covers the rest of the
text has the rest of the tokens (`Scanned.split`).

What a lexeme looks like follows from the rule that takes it (`exists_rule_of_next`). A runtime expression is taken as
far as its parts go (`runtimeTail_append`, `runtimeTail_segment`).
-/

namespace FlowSuite

theorem Text.byteCount_pos {cs : List Char} (h : cs ≠ []) : 0 < Text.byteCount cs := by
  cases cs with
  | nil => exact absurd rfl h
  | cons c cs =>
    have hc := c.utf8Size_pos
    rw [Text.byteCount_cons]
    omega

namespace Lexer

open Text (byteCount)

/-! ## Rules take what is in front -/

theorem stringElements_front (cs : List Char) : stringElements cs <+: cs := by
  induction cs using stringElements.induct with
  | case1 cs => exact List.nil_prefix
  | case2 c cs hc ih =>
    rw [stringElements, if_neg hc, List.cons_prefix_cons, List.cons_prefix_cons]
    exact ⟨rfl, rfl, ih⟩
  | case3 c cs hpair hc =>
    rw [stringElements.eq_2 c cs hpair, if_pos hc]
    exact List.nil_prefix
  | case4 c cs hpair hc ih =>
    rw [stringElements.eq_2 c cs hpair, if_neg hc, List.cons_prefix_cons]
    exact ⟨rfl, ih⟩
  | case5 => exact List.nil_prefix

theorem runtimeTail_front (part : RuntimePart) (cs : List Char) : runtimeTail part cs <+: cs := by
  induction cs generalizing part with
  | nil => exact List.nil_prefix
  | cons c cs ih =>
    rw [runtimeTail]
    repeat' split
    · exact List.cons_prefix_cons.mpr ⟨rfl, ih part⟩
    · exact List.cons_prefix_cons.mpr ⟨rfl, ih .hash⟩
    · exact List.cons_prefix_cons.mpr ⟨rfl, ih .key⟩
    · exact List.cons_prefix_cons.mpr ⟨rfl, ih .segment⟩
    · exact List.nil_prefix

/-- Takes something, and takes it from the front. -/
def Rule.TakesFront (rule : Rule) : Prop := ∀ {cs lexeme}, rule cs = some lexeme → lexeme ≠ [] ∧ lexeme <+: cs

theorem takesFront_exactly (c : Char) (cs : List Char) : Rule.TakesFront (exactly (c :: cs)) := by
  intro text lexeme h
  unfold exactly at h
  split at h
  · next hp =>
    cases h
    exact ⟨List.cons_ne_nil c cs, List.isPrefixOf_iff_prefix.mp hp⟩
  · cases h

theorem takesFront_word : Rule.TakesFront word := by
  intro text lexeme h
  unfold word at h
  split at h
  · next c cs =>
    split at h
    · cases h
      exact ⟨List.cons_ne_nil _ _, List.cons_prefix_cons.mpr ⟨rfl, List.takeWhile_prefix _⟩⟩
    · cases h
  · cases h

theorem int_eq_some {cs lexeme : List Char} (h : int cs = some lexeme) :
    lexeme = cs.takeWhile Char.isDigit ∧ lexeme ≠ [] := by
  unfold int at h
  split at h
  · cases h
  · next hne =>
    cases h
    exact ⟨rfl, by simpa using hne⟩

theorem takesFront_int : Rule.TakesFront int := by
  intro text lexeme h
  obtain ⟨rfl, hne⟩ := int_eq_some h
  exact ⟨hne, List.takeWhile_prefix _⟩

/-- A decimal number is digits, a point and digits, and stands in front of the text. -/
theorem float_eq_some {cs lexeme : List Char} (h : float cs = some lexeme) :
    ∃ whole rest places, cs = whole ++ '.' :: rest ∧ int rest = some places ∧ lexeme = whole ++ '.' :: places ∧
      whole ≠ [] ∧ ∀ c ∈ whole, c.isDigit := by
  unfold float at h
  split at h
  · next whole rest hwhole hrest =>
    obtain ⟨places, hplaces, rfl⟩ := Option.map_eq_some_iff.mp h
    obtain ⟨rfl, hne⟩ := int_eq_some hwhole
    refine ⟨_, rest, places, ?_, hplaces, rfl, hne, fun c hc => List.all_eq_true.mp List.all_takeWhile c hc⟩
    rw [← hrest, List.takeWhile_append_dropWhile]
  · cases h

theorem takesFront_float : Rule.TakesFront float := by
  intro text lexeme h
  obtain ⟨whole, rest, places, rfl, hplaces, rfl, hne, _⟩ := float_eq_some h
  obtain ⟨_, hprefix⟩ := takesFront_int hplaces
  exact ⟨by simp, (List.prefix_append_right_inj whole).mpr (List.cons_prefix_cons.mpr ⟨rfl, hprefix⟩)⟩

/-- A double-quoted string is quotes around string elements. -/
theorem doubleQuoted_eq_some {cs lexeme : List Char} (h : doubleQuoted cs = some lexeme) :
    ∃ inside rest, cs = '"' :: inside ∧ inside = stringElements inside ++ '"' :: rest ∧
      lexeme = '"' :: stringElements inside ++ ['"'] := by
  unfold doubleQuoted at h
  split at h
  · next inside =>
    split at h
    · next rest hrest =>
      cases h
      have htake := List.prefix_iff_eq_take.mp (stringElements_front inside)
      have hsplit := List.take_append_drop (stringElements inside).length inside
      rw [← htake, hrest] at hsplit
      exact ⟨inside, rest, rfl, hsplit.symm, rfl⟩
    · cases h
  · cases h

theorem takesFront_doubleQuoted : Rule.TakesFront doubleQuoted := by
  intro text lexeme h
  obtain ⟨inside, rest, rfl, hinside, rfl⟩ := doubleQuoted_eq_some h
  refine ⟨List.cons_ne_nil _ _, rest, ?_⟩
  rw [List.cons_append, List.cons_append, List.append_assoc, List.singleton_append, ← hinside]

/-- A single-quoted string is quotes around characters that are none. -/
theorem singleQuoted_eq_some {cs lexeme : List Char} (h : singleQuoted cs = some lexeme) :
    ∃ inner rest, cs = '\'' :: inner ++ '\'' :: rest ∧ lexeme = '\'' :: inner ++ ['\''] ∧ '\'' ∉ inner := by
  unfold singleQuoted at h
  split at h
  · next inside =>
    split at h
    · next c rest hrest =>
      cases h
      have hc : c = '\'' := by
        have hhead := List.head?_dropWhile_not (· ≠ '\'') inside
        rw [hrest] at hhead
        simpa using hhead
      subst hc
      refine ⟨_, rest, ?_, rfl, fun hmem => ?_⟩
      · rw [List.cons_append, ← hrest, List.takeWhile_append_dropWhile]
      · have := List.all_eq_true.mp List.all_takeWhile _ hmem
        simp at this
    · cases h
  · cases h

theorem takesFront_singleQuoted : Rule.TakesFront singleQuoted := by
  intro text lexeme h
  obtain ⟨inner, rest, rfl, rfl, _⟩ := singleQuoted_eq_some h
  exact ⟨List.cons_ne_nil _ _, rest, by simp⟩

theorem takesFront_runtime : Rule.TakesFront runtime := by
  intro text lexeme h
  unfold runtime at h
  split at h
  · next c cs =>
    split at h
    · cases h
      exact ⟨List.cons_ne_nil _ _,
        List.cons_prefix_cons.mpr ⟨rfl, List.cons_prefix_cons.mpr ⟨rfl, runtimeTail_front _ _⟩⟩⟩
    · cases h
  · cases h

theorem takesFront_rules : ∀ entry ∈ rules, entry.2.TakesFront := by
  simp only [rules, List.forall_mem_cons, takesFront_exactly, takesFront_word, takesFront_int, takesFront_float,
    takesFront_doubleQuoted, takesFront_singleQuoted, takesFront_runtime, List.not_mem_nil, false_imp_iff,
    implies_true, and_self]

/-! ## The next lexeme -/

theorem unreadable_front (c : Char) (cs : List Char) :
    unreadable (c :: cs) ≠ [] ∧ unreadable (c :: cs) <+: c :: cs := by
  rw [unreadable]
  split
  · next hc =>
    subst hc
    exact ⟨List.cons_ne_nil _ _, List.cons_prefix_cons.mpr ⟨rfl, stringElements_front cs⟩⟩
  · split
    · exact ⟨List.cons_ne_nil _ _, List.prefix_refl _⟩
    · exact ⟨List.cons_ne_nil _ _, List.cons_prefix_cons.mpr ⟨rfl, List.nil_prefix⟩⟩

/-- What is next is what a rule takes, or cannot be read. -/
theorem next_cases (cs : List Char) :
    (∃ rule, ((next cs).1, rule) ∈ rules ∧ rule cs = some (next cs).2) ∨ next cs = (.invalid, unreadable cs) := by
  unfold next
  cases h : longest? rules cs with
  | none => exact .inr rfl
  | some found => exact .inl (mem_of_longest? h)

/-- A valid lexeme is what the rule of its kind takes. -/
theorem exists_rule_of_next {cs lexeme : List Char} {kind : TokenKind} (h : next cs = (kind, lexeme))
    (hk : kind ≠ .invalid) : ∃ rule, (kind, rule) ∈ rules ∧ rule cs = some lexeme := by
  rcases next_cases cs with hrule | hnone
  · rwa [h] at hrule
  · rw [h] at hnone
    cases hnone
    exact absurd rfl hk

/-- Something is in front of every text that is not empty. -/
theorem next_front (c : Char) (cs : List Char) : (next (c :: cs)).2 ≠ [] ∧ (next (c :: cs)).2 <+: c :: cs := by
  rcases next_cases (c :: cs) with ⟨rule, hmem, htaken⟩ | hnone
  · exact takesFront_rules _ hmem htaken
  · rw [hnone]
    exact unreadable_front c cs

/-! ## The tokens along a text -/

/-- The tokens of a text that starts at an offset: blanks are passed over, and the next lexeme becomes a token. -/
inductive Scanned : Nat → List Char → List Token → Prop
  | atEnd {offset : Nat} : Scanned offset [] [.atEnd offset]
  | blank {offset : Nat} {c : Char} {cs : List Char} {ts : List Token} : isBlank c →
      Scanned (offset + c.utf8Size) cs ts → Scanned offset (c :: cs) ts
  | token {offset : Nat} {c : Char} {text lexeme rest : List Char} {kind : TokenKind} {ts : List Token} : ¬isBlank c →
      lexeme.head? = some c → text = lexeme ++ rest → next text = (kind, lexeme) →
      Scanned (offset + byteCount lexeme) rest ts →
      Scanned offset text (⟨kind, lexeme, ⟨offset, offset + byteCount lexeme⟩⟩ :: ts)

/-- Characters that are part of a token already made are passed. -/
theorem scan_append (passed cs : List Char) (offset : Nat) :
    scan passed.length offset (passed ++ cs) = scan 0 (offset + byteCount passed) cs := by
  induction passed generalizing offset with
  | nil => rfl
  | cons c passed ih =>
    rw [List.length_cons, List.cons_append, scan, ih, Text.byteCount_cons, Nat.add_assoc]

/-- The next lexeme becomes a token, and the others are found behind it. -/
theorem scan_token {c : Char} {lexeme rest : List Char} {kind : TokenKind} (hc : ¬isBlank c)
    (hhead : lexeme.head? = some c) (hnext : next (lexeme ++ rest) = (kind, lexeme)) (offset : Nat) :
    scan 0 offset (lexeme ++ rest) =
      ⟨kind, lexeme, ⟨offset, offset + byteCount lexeme⟩⟩ :: scan 0 (offset + byteCount lexeme) rest := by
  obtain ⟨word, rfl⟩ := List.head?_eq_some_iff.mp hhead
  rw [List.cons_append] at hnext ⊢
  rw [scan, if_neg hc, hnext]
  simp only [List.length_cons, Nat.add_sub_cancel, scan_append, Text.byteCount_cons, Nat.add_assoc]

theorem scanned_scan (offset : Nat) : ∀ cs : List Char, Scanned offset cs (scan 0 offset cs)
  | [] => .atEnd
  | c :: cs => by
    by_cases hb : isBlank c
    · rw [scan, if_pos hb]
      exact .blank hb (scanned_scan _ cs)
    · obtain ⟨hne, rest, hrest⟩ := next_front c cs
      generalize hnext : next (c :: cs) = found at hne hrest
      obtain ⟨kind, lexeme⟩ := found
      obtain ⟨d, word, rfl⟩ := List.exists_cons_of_ne_nil hne
      dsimp only at hrest
      rw [← hrest] at hnext ⊢
      obtain ⟨rfl, rfl⟩ := List.cons.inj hrest
      rw [scan_token hb rfl hnext]
      exact .token hb rfl rfl hnext (scanned_scan _ rest)
  termination_by cs => cs.length

/-- **The tokens of a text are found along it.** -/
theorem scanned_tokenize (text : List Char) : Scanned 0 text (tokenize text) := scanned_scan 0 text

/-- Nothing else is found along a text. -/
theorem Scanned.eq_scan {offset : Nat} {cs : List Char} {ts : List Token} (h : Scanned offset cs ts) :
    scan 0 offset cs = ts := by
  induction h with
  | atEnd => rfl
  | blank hb _ ih => rw [scan, if_pos hb, ih]
  | token hb hhead htext hnext _ ih =>
    subst htext
    rw [scan_token hb hhead hnext, ih]

/-- Blanks in front of a text are passed over. -/
theorem Scanned.append_blanks {offset : Nat} {blanks cs : List Char} {ts : List Token}
    (hblanks : ∀ c ∈ blanks, isBlank c) (h : Scanned (offset + byteCount blanks) cs ts) :
    Scanned offset (blanks ++ cs) ts := by
  induction blanks generalizing offset with
  | nil => exact h
  | cons c blanks ih =>
    obtain ⟨hc, hblanks⟩ := List.forall_mem_cons.mp hblanks
    rw [Text.byteCount_cons, ← Nat.add_assoc] at h
    exact .blank hc (ih hblanks h)

/-- A lexeme behind blanks is the first token, and what is found behind it are the others. -/
theorem Scanned.cons {offset : Nat} {blanks rest : List Char} {t : Token} {ts : List Token}
    (hblanks : ∀ c ∈ blanks, isBlank c) (hhead : ∃ c, ¬isBlank c ∧ t.lexeme.head? = some c)
    (hnext : next (t.lexeme ++ rest) = (t.kind, t.lexeme))
    (hspan : t.span = ⟨offset + byteCount blanks, offset + byteCount blanks + byteCount t.lexeme⟩)
    (h : Scanned (offset + byteCount blanks + byteCount t.lexeme) rest ts) :
    Scanned offset (blanks ++ (t.lexeme ++ rest)) (t :: ts) := by
  obtain ⟨c, hc, hhead⟩ := hhead
  obtain ⟨kind, lexeme, span⟩ := t
  obtain rfl : span = ⟨offset + byteCount blanks, offset + byteCount blanks + byteCount lexeme⟩ := hspan
  exact .append_blanks hblanks (.token hc hhead rfl hnext h)

/-- The first token has its lexeme behind blanks, and the others belong to the text behind it. -/
theorem Scanned.of_cons {offset : Nat} {cs : List Char} {t : Token} {ts : List Token} (h : Scanned offset cs (t :: ts))
    (hk : t.kind ≠ .endOfText) :
    ∃ blanks rest, cs = blanks ++ (t.lexeme ++ rest) ∧ (∀ c ∈ blanks, isBlank c) ∧
      (∃ c, ¬isBlank c ∧ t.lexeme.head? = some c) ∧ next (t.lexeme ++ rest) = (t.kind, t.lexeme) ∧
      t.span = ⟨offset + byteCount blanks, offset + byteCount blanks + byteCount t.lexeme⟩ ∧
      Scanned (offset + byteCount blanks + byteCount t.lexeme) rest ts := by
  generalize htokens : t :: ts = us at h
  induction h with
  | atEnd =>
    cases htokens
    exact absurd rfl hk
  | @blank _ c _ _ hb _ ih =>
    obtain ⟨blanks, rest, rfl, hblanks, hhead, hnext, hspan, hrest⟩ := ih htokens
    rw [Nat.add_assoc _ c.utf8Size, ← Text.byteCount_cons] at hspan hrest
    exact ⟨c :: blanks, rest, rfl, List.forall_mem_cons.mpr ⟨hb, hblanks⟩, hhead, hnext, hspan, hrest⟩
  | @token _ c _ _ _ _ _ hc hhead htext hnext hrest =>
    cases htokens
    subst htext
    exact ⟨[], _, rfl, by simp, ⟨c, hc, hhead⟩, hnext, rfl, hrest⟩

/-- In front of the end of a text there are only blanks. -/
theorem Scanned.isBlank_of_atEnd {offset : Nat} {cs : List Char} {t : Token} {ts : List Token}
    (h : Scanned offset cs (t :: ts)) (hk : t.kind = .endOfText) : ∀ c ∈ cs, isBlank c := by
  generalize htokens : t :: ts = us at h
  induction h with
  | atEnd => simp
  | blank hb _ ih => exact List.forall_mem_cons.mpr ⟨hb, ih htokens⟩
  | @token _ _ text _ _ _ _ _ _ _ hnext =>
    cases htokens
    have hkind := next_kind_ne text
    rw [hnext] at hkind
    exact absurd hk hkind

end Lexer

/-- Covers an offset and the byte before it. -/
def Span.Covers (s : Span) (offset : Nat) : Prop := s.start < offset ∧ offset < s.stop

instance (s : Span) (offset : Nat) : Decidable (s.Covers offset) := inferInstanceAs (Decidable (_ ∧ _))

namespace Lexer

open Text (byteCount)

/-- At an offset that no token covers the tokens are cut in two, like the text. -/
theorem Scanned.split {offset : Nat} {before after : List Char} {ts : List Token}
    (h : Scanned offset (before ++ after) ts) (hcut : ∀ t ∈ ts, ¬t.span.Covers (offset + byteCount before)) :
    ∃ us vs, ts = us ++ vs ∧ Scanned (offset + byteCount before) after vs := by
  generalize htext : before ++ after = text at h
  induction h generalizing before with
  | @atEnd offset =>
    obtain ⟨rfl, rfl⟩ := List.append_eq_nil_iff.mp htext
    exact ⟨[], _, rfl, .atEnd⟩
  | @blank offset c cs ts hb h ih =>
    cases before with
    | nil =>
      rw [List.nil_append] at htext
      subst htext
      exact ⟨[], ts, rfl, .blank hb h⟩
    | cons d before =>
      obtain ⟨rfl, rfl⟩ := List.cons.inj htext
      rw [Text.byteCount_cons, ← Nat.add_assoc] at hcut ⊢
      exact ih hcut rfl
  | @token offset c text lexeme rest kind ts hb hc htext' hnext h ih =>
    subst htext'
    cases before with
    | nil =>
      rw [List.nil_append] at htext
      subst htext
      exact ⟨[], _, rfl, .token hb hc rfl hnext h⟩
    | cons d before =>
      have hlt : 0 < byteCount (d :: before) := Text.byteCount_pos (List.cons_ne_nil d before)
      rcases List.append_eq_append_iff.mp htext with ⟨more, hmore, rfl⟩ | ⟨more, hbefore, rfl⟩
      · -- the lexeme goes on behind the cut, so it must end there
        cases more with
        | nil =>
          rw [List.append_nil] at hmore
          rw [hmore] at h
          exact ⟨[_], ts, rfl, h⟩
        | cons m more =>
          have hmorelt : 0 < byteCount (m :: more) := Text.byteCount_pos (List.cons_ne_nil m more)
          refine absurd ?_ (hcut _ List.mem_cons_self)
          rw [hmore, Text.byteCount_append]
          show offset < _ ∧ _ < offset + (_ + _)
          omega
      · rw [hbefore, Text.byteCount_append, ← Nat.add_assoc] at hcut ⊢
        obtain ⟨us, vs, rfl, hvs⟩ := ih (fun t ht => hcut t (List.mem_cons_of_mem _ ht)) rfl
        exact ⟨_ :: us, vs, rfl, hvs⟩

/-! ## Runtime expressions -/

/-- Only a runtime expression begins with a dollar sign and a letter. -/
theorem next_runtime {c : Char} (hc : isLetter c) (cs : List Char) :
    next ('$' :: c :: cs) = (.runtime, '$' :: c :: runtimeTail .word cs) := by
  have hruntime : runtime ('$' :: c :: cs) = some ('$' :: c :: runtimeTail .word cs) := by rw [runtime, if_pos hc]
  have hword : word ('$' :: c :: cs) = none := by simp [word, isLetter]
  simp [next, rules, longest?, exactly, hruntime, int, float, doubleQuoted, singleQuoted, hword]

/-- A part goes on over the characters that continue it. -/
theorem runtimeTail_append {part : RuntimePart} {cs : List Char} (h : ∀ c ∈ cs, part.continues c) (rest : List Char) :
    runtimeTail part (cs ++ rest) = cs ++ runtimeTail part rest := by
  induction cs with
  | nil => rfl
  | cons c cs ih =>
    rw [List.cons_append, runtimeTail, if_pos (h c List.mem_cons_self),
      ih fun d hd => h d (List.mem_cons_of_mem c hd), List.cons_append]

/-- A point and a character of a segment begin one more segment. -/
theorem runtimeTail_segment {part : RuntimePart} (hpart : ¬part.continues '.') {c : Char} (hc : isSegmentChar c)
    (cs : List Char) : runtimeTail part ('.' :: c :: cs) = '.' :: runtimeTail .segment (c :: cs) := by
  rw [runtimeTail, if_neg hpart, if_neg (by decide), if_neg (by simp), if_pos ⟨rfl, by simpa using hc⟩]

end Lexer

end FlowSuite
