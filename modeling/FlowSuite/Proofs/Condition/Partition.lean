import FlowSuite.Proofs.Condition.Boundaries
import FlowSuite.Proofs.Condition.Languages

/-!
# Tokens are what the table of languages says

A text is taken apart without loss (`tokenize_partition`): its tokens stand one behind the other and are not empty, what
lies between them is blank, and the end of the text comes last. Each of them but the unreadable ones is the longest text
of any language of the table at its place, of the first kind that has it (`next_maximalMunch`), and it is the same token
alone.
-/

namespace FlowSuite.Lexer

open Text (byteCount IsBoundary)

/-- A lexeme is in front of a text, no text of any language of the table that is also in front is longer, and its kind
is that of the first language that has it. -/
structure MaximalMunch (cs : List Char) (kind : TokenKind) (lexeme : List Char) : Prop where
  front : lexeme <+: cs
  longest : ∀ entry ∈ languages, ∀ other ∈ entry.2, other <+: cs → other.length ≤ lexeme.length
  first : ∃ before L after, languages = before ++ (kind, L) :: after ∧ lexeme ∈ L ∧
    ∀ entry ∈ before, lexeme ∉ entry.2

/-! ## The longest match -/

section Table

variable {rs : List (TokenKind × Rule)} {ls : List (TokenKind × Language Char)}
  (h : List.Forall₂ (fun rule entry => rule.1 = entry.1 ∧ rule.2.Recognizes entry.2) rs ls)
include h

/-- What a language has in front of a text is no longer than the longest match. -/
theorem exists_longest?_of_language {cs other : List Char} {entry : TokenKind × Language Char} (hentry : entry ∈ ls)
    (hother : other ∈ entry.2) (hcs : other <+: cs) :
    ∃ best longest, longest? rs cs = some (best, longest) ∧ other.length ≤ longest.length := by
  obtain ⟨rule, hrule, hrecognizes⟩ : ∃ rule ∈ rs, rule.2.Recognizes entry.2 := by
    induction h with
    | nil => cases hentry
    | cons hhead _ ih =>
      rcases List.mem_cons.mp hentry with rfl | hentry
      · exact ⟨_, List.mem_cons_self, hhead.2⟩
      · obtain ⟨rule, hrule, hrecognizes⟩ := ih hentry
        exact ⟨rule, List.mem_cons_of_mem _ hrule, hrecognizes⟩
  obtain ⟨lexeme, htaken, hle⟩ := hrecognizes.covers hother hcs
  obtain ⟨best, longest, hlongest, hle'⟩ := exists_longest?_of_mem hrule htaken
  exact ⟨best, longest, hlongest, Nat.le_trans hle hle'⟩

/-- The longest match is in front, and it is in the language of its kind and in none before that. -/
theorem first_of_longest? {cs lexeme : List Char} {kind : TokenKind} (hl : longest? rs cs = some (kind, lexeme)) :
    lexeme <+: cs ∧ ∃ before L after, ls = before ++ (kind, L) :: after ∧ lexeme ∈ L ∧
      ∀ entry ∈ before, lexeme ∉ entry.2 := by
  induction h with
  | nil => cases hl
  | @cons rule entry rs ls hhead hrest ih =>
    obtain ⟨k, r⟩ := rule
    obtain ⟨_, L⟩ := entry
    obtain ⟨rfl, hrecognizes⟩ : k = _ ∧ r.Recognizes L := hhead
    -- a later match is the longest one only if the first rule takes less
    have hlater (hless : ∀ first, r cs = some first → first.length < lexeme.length)
        (hl : longest? rs cs = some (kind, lexeme)) :
        lexeme <+: cs ∧ ∃ before L' after, (k, L) :: ls = before ++ (kind, L') :: after ∧ lexeme ∈ L' ∧
          ∀ entry ∈ before, lexeme ∉ entry.2 := by
      obtain ⟨hfront, before, L', after, rfl, hmem, hbefore⟩ := ih hl
      refine ⟨hfront, (k, L) :: before, L', after, rfl, hmem, List.forall_mem_cons.mpr ⟨fun hfirst => ?_, hbefore⟩⟩
      obtain ⟨first, htaken, hle⟩ := hrecognizes.covers hfirst hfront
      exact absurd (hless first htaken) (by omega)
    have hfirst (htaken : r cs = some lexeme) (hk : k = kind) :
        lexeme <+: cs ∧ ∃ before L' after, (k, L) :: ls = before ++ (kind, L') :: after ∧ lexeme ∈ L' ∧
          ∀ entry ∈ before, lexeme ∉ entry.2 := by
      obtain ⟨hmem, hfront⟩ := hrecognizes.taken htaken
      exact ⟨hfront, [], L, ls, by rw [hk]; rfl, hmem, by simp⟩
    rw [longest?] at hl
    cases htaken : r cs with
    | none =>
      rw [htaken] at hl hlater
      exact hlater (by simp) hl
    | some first =>
      rw [htaken] at hl hlater hfirst
      cases hmore : longest? rs cs with
      | none =>
        rw [hmore] at hl
        cases hl
        exact hfirst rfl rfl
      | some found =>
        obtain ⟨kind', lexeme'⟩ := found
        simp only [hmore] at hl hlater
        split at hl
        · next hlt =>
          cases hl
          exact hlater (fun _ he => by cases he; exact hlt) rfl
        · cases hl
          exact hfirst rfl rfl

end Table

variable {cs lexeme : List Char} {kind : TokenKind}

/-- **What is next is the maximal munch of the table.** -/
theorem next_maximalMunch (hk : kind ≠ .invalid) (h : next cs = (kind, lexeme)) : MaximalMunch cs kind lexeme := by
  have hlongest := (next_eq_iff hk).mp h
  obtain ⟨hfront, hfirst⟩ := first_of_longest? rules_recognize hlongest
  refine ⟨hfront, fun entry hentry other hother hcs => ?_, hfirst⟩
  obtain ⟨_, _, hlongest', hle⟩ := exists_longest?_of_language rules_recognize hentry hother hcs
  cases hlongest'.symm.trans hlongest
  exact hle

/-- Where nothing can be read, no language of the table has a text in front. -/
theorem not_prefix_of_invalid (h : next cs = (.invalid, lexeme)) :
    ∀ entry ∈ languages, ∀ other ∈ entry.2, ¬other <+: cs := by
  intro entry hentry other hother hcs
  obtain ⟨best, longest, hlongest, _⟩ := exists_longest?_of_language rules_recognize hentry hother hcs
  obtain ⟨rule, hmem, _⟩ := mem_of_longest? hlongest
  have hvalid : best ≠ .invalid := valid_of_mem_rules hmem
  have hnext := (next_eq_iff hvalid).mpr hlongest
  rw [h] at hnext
  cases hnext
  exact hvalid rfl

/-! ## Between the tokens -/

/-- A character that no token covers is blank. -/
theorem Scanned.isBlank_of_not_covered {offset : Nat} {ts : List Token} (h : Scanned offset cs ts)
    {before after : List Char} {c : Char} (hcs : cs = before ++ c :: after)
    (hout : ∀ t ∈ ts, ¬(t.span.start ≤ offset + byteCount before ∧ offset + byteCount before < t.span.stop)) :
    isBlank c := by
  induction h generalizing before with
  | atEnd => simp at hcs
  | @blank offset d cs ts hd _ ih =>
    cases before with
    | nil =>
      obtain ⟨rfl, _⟩ := List.cons.inj hcs
      exact hd
    | cons b before =>
      obtain ⟨rfl, hrest⟩ := List.cons.inj hcs
      rw [Text.byteCount_cons, ← Nat.add_assoc] at hout
      exact ih hrest hout
  | @token offset d text lexeme rest kind ts _ _ htext _ _ ih =>
    rw [htext] at hcs
    rcases List.append_eq_append_iff.mp hcs with ⟨more, rfl, hrest⟩ | ⟨more, rfl, hrest⟩
    · rw [Text.byteCount_append, ← Nat.add_assoc] at hout
      exact ih hrest fun t ht => hout t (List.mem_cons_of_mem _ ht)
    cases more with
    | nil =>
      rw [List.append_nil] at hout
      have hsplit : rest = [] ++ c :: after := hrest.symm
      exact ih hsplit fun t ht => by simpa using hout t (List.mem_cons_of_mem _ ht)
    | cons m more =>
      -- the lexeme goes on behind the characters before this one
      have hpos : 0 < byteCount (m :: more) := Text.byteCount_pos (List.cons_ne_nil m more)
      refine absurd ⟨Nat.le_add_right _ _, ?_⟩ (hout _ List.mem_cons_self)
      rw [Text.byteCount_append]
      show _ < offset + (_ + _)
      omega

/-! ## Whole texts -/

/-- What can be said of a token in a text, but for the token at its end. -/
structure Stands (text : List Char) (t : Token) : Prop where
  kind_ne : t.kind ≠ .endOfText
  nonempty : t.span.start < t.span.stop
  boundaries : IsBoundary text t.span.start ∧ IsBoundary text t.span.stop
  slice_eq : Text.slice t.span text = t.lexeme
  /-- No blanks are in front. -/
  head : ∃ c, ¬isBlank c ∧ t.lexeme.head? = some c
  /-- It is what the table says of the text that begins with it. -/
  munch : ∃ before after, text = before ++ (t.lexeme ++ after) ∧ byteCount before = t.span.start ∧
    (t.kind ≠ .invalid → MaximalMunch (t.lexeme ++ after) t.kind t.lexeme) ∧
    (t.kind = .invalid → ∀ entry ∈ languages, ∀ other ∈ entry.2, ¬other <+: t.lexeme ++ after)
  alone : t.kind ≠ .invalid → tokenize t.lexeme =
    [⟨t.kind, t.lexeme, ⟨0, byteCount t.lexeme⟩⟩, .atEnd (byteCount t.lexeme)]
  symbol_eq : ∀ symbol, t.kind.symbol? = some symbol → t.text = symbol

/-- A lexeme alone is one token. -/
theorem tokenize_of_next {c : Char} {after : List Char} (hc : ¬isBlank c) (hhead : lexeme.head? = some c)
    (hk : kind ≠ .invalid) (h : next (lexeme ++ after) = (kind, lexeme)) :
    tokenize lexeme = [⟨kind, lexeme, ⟨0, byteCount lexeme⟩⟩, .atEnd (byteCount lexeme)] := by
  have halone : next (lexeme ++ []) = (kind, lexeme) := by
    rw [List.append_nil]
    exact next_cut hk h (List.prefix_refl lexeme) (List.prefix_append lexeme after)
  have hscan := scan_token hc hhead halone 0
  rw [List.append_nil, Nat.zero_add] at hscan
  rw [tokenize, hscan, scan]

/-- A token of a text is the one at its end, or all of this can be said of it. -/
theorem stands_of_mem_tokenize {text : List Char} {t : Token} (ht : t ∈ tokenize text) :
    t = .atEnd (byteCount text) ∨ Stands text t := by
  have hscanned := scanned_tokenize text
  rcases hscanned.cases_located t ht with hend | ⟨before, after, htext, hspan, ⟨c, hc, hhead⟩, hnext⟩
  · rw [Nat.zero_add] at hend
    exact .inl hend
  rw [Nat.zero_add] at hspan
  have hne : t.lexeme ≠ [] := fun hnil => by simp [hnil] at hhead
  have hkind := next_kind_ne (t.lexeme ++ after)
  rw [hnext] at hkind
  refine .inr
    { kind_ne := hkind
      nonempty := ?_
      boundaries := hscanned.isBoundary t ht
      slice_eq := ?_
      head := ⟨c, hc, hhead⟩
      munch := ⟨before, after, htext, by rw [hspan], fun hk => next_maximalMunch hk hnext, fun hk => ?_⟩
      alone := fun hk => tokenize_of_next hc hhead hk hnext
      symbol_eq := fun symbol hs => ?_ }
  · have hpos := Text.byteCount_pos hne
    rw [hspan]
    show byteCount before < byteCount before + byteCount t.lexeme
    omega
  · rw [hspan, htext, ← List.append_assoc, Text.slice_byteCount]
  · rw [hk] at hnext
    exact not_prefix_of_invalid hnext
  · have hspelled : (next (t.lexeme ++ after)).2 = symbol.toList := next_spelled _ (by rw [hnext]; exact hs)
    have hlexeme : t.lexeme = symbol.toList := by rwa [hnext] at hspelled
    rw [Token.text, hlexeme, String.ofList_toList]

/-- **Cutting a text into tokens is a partition by maximal munch.** The tokens in front of its end stand one behind the
other, each of them is what the table says, what they do not cover is blank, and the end is where the text ends. -/
theorem tokenize_partition (text : List Char) :
    ∃ ts, tokenize text = ts ++ [.atEnd (byteCount text)] ∧ (∀ t ∈ ts, Stands text t) ∧
      ts.Pairwise (fun t u => t.span.stop ≤ u.span.start) ∧
      ∀ before c after, text = before ++ c :: after →
        (∀ t ∈ ts, ¬(t.span.start ≤ byteCount before ∧ byteCount before < t.span.stop)) →
        c ∈ [' ', '\t', '\r', '\n', '\x0c'] := by
  have hscanned := scanned_tokenize text
  have hstream := tokenStream_tokenize text
  have hstands := fun t => @stands_of_mem_tokenize text t
  obtain ⟨ts, last, heq, hlast⟩ := hstream.exists_eq_append
  rw [heq] at hscanned hstream hstands
  obtain rfl : last = .atEnd (byteCount text) :=
    (hstands last (by simp)).resolve_right fun h => h.kind_ne hlast
  refine ⟨ts, heq, fun t ht => ?_, ?_, fun before c after htext hout => ?_⟩
  · refine (hstands t (List.mem_append_left _ ht)).resolve_left fun hend => ?_
    have hkind := List.all_eq_true.mp List.all_takeWhile t (hstream.takeWhile_append ▸ ht)
    rw [hend] at hkind
    cases hkind
  · exact hscanned.ordered.1.apart.sublist (List.sublist_append_left ts _)
  · have hblank : isBlank c := by
      refine hscanned.isBlank_of_not_covered htext fun t ht => ?_
      rw [Nat.zero_add]
      rcases List.mem_append.mp ht with ht | ht
      · exact hout t ht
      · cases List.mem_singleton.mp ht
        rintro ⟨hstart, hstop⟩
        exact absurd (Nat.lt_of_le_of_lt hstart hstop) (Nat.lt_irrefl _)
    exact of_decide_eq_true hblank

end FlowSuite.Lexer
