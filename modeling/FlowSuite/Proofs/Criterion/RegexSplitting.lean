import FlowSuite.Proofs.Criterion.RegexLiteral

/-!
# Which texts are regular expressions

A literal has its pattern between two slashes and its flags behind the second one (`Regex.IsLiteral`). Flags are
letters, so the second slash is the last one of the text, and a text is a literal in one way at most, whatever slashes
the pattern holds (`IsLiteral.unique`).

* A literal is taken apart (`IsLiteral.split_eq`), and any other text is a pattern as it stands
  (`split_of_not_isLiteral`).
* What is refused is an empty pattern, or else a flag that stood in front already, which the error names
  (`ofText_eq_error_iff`).
* Everything else is accepted (`ofText_eq_ok_iff`).
-/

namespace FlowSuite.Regex

/-! ## The last slash -/

theorem splitLast_eq_none_iff {cs : List Char} : splitLast cs = none ↔ '/' ∉ cs := by
  induction cs with
  | nil => simp [splitLast]
  | cons c cs ih =>
    rw [splitLast]
    cases h : splitLast cs with
    | none =>
      have hcs : '/' ∉ cs := ih.mp h
      simp [hcs, eq_comm]
    | some found =>
      have hcs : ¬ '/' ∉ cs := fun hno => by simp [ih.mpr hno] at h
      simp [Decidable.not_not.mp hcs]

/-- A text is split at the slash that has none behind it. -/
theorem splitLast_eq_some_iff {cs pattern flags : List Char} :
    splitLast cs = some (pattern, flags) ↔ cs = pattern ++ '/' :: flags ∧ '/' ∉ flags := by
  induction cs generalizing pattern with
  | nil => simp [splitLast]
  | cons c cs ih =>
    rw [splitLast]
    constructor
    · intro h
      split at h
      · next before behind hsplit =>
        cases h
        obtain ⟨rfl, hflags⟩ := ih.mp hsplit
        exact ⟨rfl, hflags⟩
      · next hsplit =>
        split at h
        · next hc =>
          cases h
          exact ⟨congrArg (List.cons · _) hc, splitLast_eq_none_iff.mp hsplit⟩
        · cases h
    · rintro ⟨htext, hflags⟩
      cases pattern with
      | nil =>
        obtain ⟨rfl, rfl⟩ := List.cons.inj htext
        rw [splitLast_eq_none_iff.mpr hflags, if_pos rfl]
      | cons d pattern =>
        obtain ⟨rfl, hcs⟩ := List.cons.inj htext
        rw [ih.mpr ⟨hcs, hflags⟩]

/-! ## Literals -/

/-- All letters of a text are flags. -/
def AreFlags (flags : String) : Prop := ∀ c ∈ flags.toList, c ∈ "dgimsuvy".toList

theorem all_regexFlags_iff {flags : String} : flags.toList.all (· ∈ regexFlags) ↔ AreFlags flags := by
  have hflags : regexFlags = "dgimsuvy".toList := rfl
  simp [AreFlags, hflags]

theorem AreFlags.slash_not_mem {flags : String} (h : AreFlags flags) : '/' ∉ flags.toList :=
  fun hslash => absurd (h '/' hslash) (by decide)

/-- A text is the pattern between two slashes, with the flags behind. -/
def IsLiteral (r : Regex) (text : String) : Prop := text = "/" ++ r.pattern ++ "/" ++ r.flags ∧ AreFlags r.flags

theorem toList_literal (r : Regex) :
    ("/" ++ r.pattern ++ "/" ++ r.flags).toList = '/' :: (r.pattern.toList ++ '/' :: r.flags.toList) := by
  simp

variable {r q : Regex} {text : String}

/-- **A literal is taken apart.** -/
theorem IsLiteral.split_eq (h : r.IsLiteral text) : split text.toList = (r.pattern.toList, r.flags.toList) := by
  obtain ⟨rfl, hflags⟩ := h
  rw [toList_literal, split, splitLast_eq_some_iff.mpr ⟨rfl, hflags.slash_not_mem⟩]
  exact if_pos (all_regexFlags_iff.mpr hflags)

/-- A text is a literal in one way only. -/
theorem IsLiteral.unique (h : r.IsLiteral text) (hq : q.IsLiteral text) : r = q := by
  obtain ⟨pattern, flags⟩ := r
  obtain ⟨pattern', flags'⟩ := q
  have hsplit := Prod.ext_iff.mp (h.split_eq.symm.trans hq.split_eq)
  exact Regex.mk.injEq .. ▸ ⟨String.toList_inj.mp hsplit.1, String.toList_inj.mp hsplit.2⟩

/-- **Any other text is a pattern as it stands.** -/
theorem split_of_not_isLiteral (h : ∀ r : Regex, ¬r.IsLiteral text) : split text.toList = (text.toList, []) := by
  unfold split
  split
  · next rest htext =>
    split
    · next pattern flags hsplit =>
      obtain ⟨rfl, _⟩ := splitLast_eq_some_iff.mp hsplit
      refine if_neg fun hflags => h ⟨String.ofList pattern, String.ofList flags⟩ ⟨?_, ?_⟩
      · rw [← String.toList_inj, toList_literal, htext]
        simp
      · rw [← all_regexFlags_iff]
        simpa using hflags
    · rfl
  · rfl

/-! ## Flags that occur twice -/

/-- A flag that occurs behind flags which are all different, and is one of them or was seen before. -/
theorem duplicate?_eq_some_iff {seen cs : List Char} {c : Char} : duplicate? seen cs = some c ↔
    ∃ before after, cs = before ++ c :: after ∧ duplicate? seen before = none ∧ (c ∈ before ∨ c ∈ seen) := by
  induction cs generalizing seen with
  | nil => simp [duplicate?]
  | cons d cs ih =>
    rw [duplicate?]
    by_cases hd : d ∈ seen
    · rw [if_pos hd]
      constructor
      · rintro ⟨⟩
        exact ⟨[], cs, rfl, rfl, .inr hd⟩
      · rintro ⟨before, after, htext, hbefore, -⟩
        cases before with
        | nil => rw [(List.cons.inj htext).1]
        | cons e before =>
          obtain ⟨rfl, -⟩ := List.cons.inj htext
          rw [duplicate?, if_pos hd] at hbefore
          cases hbefore
    · rw [if_neg hd, ih]
      constructor
      · rintro ⟨before, after, rfl, hbefore, hc⟩
        refine ⟨d :: before, after, rfl, ?_, ?_⟩
        · rw [duplicate?, if_neg hd, hbefore]
        · grind
      · rintro ⟨before, after, htext, hbefore, hc⟩
        cases before with
        | nil =>
          obtain ⟨rfl, -⟩ := List.cons.inj htext
          exact absurd (hc.resolve_left List.not_mem_nil) hd
        | cons e before =>
          obtain ⟨rfl, rfl⟩ := List.cons.inj htext
          rw [duplicate?, if_neg hd] at hbefore
          exact ⟨before, after, rfl, hbefore, by grind⟩

/-- From the front, the first letter that stood in front already. -/
theorem duplicate?_nil_eq_some_iff {cs : List Char} {c : Char} : duplicate? [] cs = some c ↔
    ∃ before after, cs = before ++ c :: after ∧ before.Nodup ∧ c ∈ before := by
  simp [duplicate?_eq_some_iff, duplicate?_eq_none_iff]

theorem duplicate?_nil_eq_none_iff {cs : List Char} : duplicate? [] cs = none ↔ cs.Nodup := by
  simp [duplicate?_eq_none_iff]

/-! ## What is accepted and what is refused -/

/-- The error for a flag that occurs twice. -/
def repeatedFlag (text : String) (flag : Char) : CompileError :=
  .invalidRegex text ("duplicate flag '" ++ String.ofList [flag] ++ "'")

theorem ofText_of_isLiteral (h : r.IsLiteral text) : ofText text =
    if r.pattern = "" then .error (.invalidRegex text "empty pattern")
    else match duplicate? [] r.flags.toList with
      | some flag => .error (repeatedFlag text flag)
      | none => .ok r := by
  simp only [ofText, h.split_eq, String.ofList_toList, List.isEmpty_iff, String.toList_eq_nil_iff]
  rfl

theorem ofText_of_not_isLiteral (h : ∀ r : Regex, ¬r.IsLiteral text) : ofText text =
    if text = "" then .error (.invalidRegex text "empty pattern") else .ok ⟨text, ""⟩ := by
  simp [ofText, split_of_not_isLiteral h, duplicate?]

/-- A text is accepted exactly if it is a literal with a pattern and without a flag that occurs twice, or no literal
and not empty. -/
theorem ofText_eq_ok_iff : ofText text = .ok r ↔ r.pattern ≠ "" ∧
    (r.IsLiteral text ∧ r.flags.toList.Nodup ∨ r = ⟨text, ""⟩ ∧ ∀ q : Regex, ¬q.IsLiteral text) := by
  by_cases hliteral : ∃ q : Regex, q.IsLiteral text
  · obtain ⟨q, hq⟩ := hliteral
    have hr : r.IsLiteral text ↔ q = r := ⟨hq.unique, fun h => h ▸ hq⟩
    have hno : ¬∀ q : Regex, ¬q.IsLiteral text := fun h => h q hq
    rw [ofText_of_isLiteral hq, hr, iff_false_intro hno, and_false, or_false, ← duplicate?_nil_eq_none_iff]
    split
    · next hempty =>
      refine iff_of_false nofun ?_
      rintro ⟨hne, rfl, -⟩
      exact hne hempty
    · next hne =>
      split
      · next flag hflag =>
        refine iff_of_false nofun ?_
        rintro ⟨-, rfl, hnone⟩
        exact nomatch hflag.symm.trans hnone
      · next hnone =>
        constructor
        · rintro ⟨⟩
          exact ⟨hne, rfl, hnone⟩
        · rintro ⟨-, rfl, -⟩
          rfl
  · have hno : ∀ q : Regex, ¬q.IsLiteral text := fun q hq => hliteral ⟨q, hq⟩
    rw [ofText_of_not_isLiteral hno]
    grind

/-- **The error of a text.** A literal without a pattern and the empty text have an empty pattern; in flags with a
repetition the first one is at fault that stood in front already. -/
theorem ofText_eq_error_iff {e : CompileError} : ofText text = .error e ↔
    (text = "" ∨ ∃ q : Regex, q.IsLiteral text ∧ q.pattern = "") ∧ e = .invalidRegex text "empty pattern" ∨
      ∃ (q : Regex) (before after : List Char) (flag : Char), q.IsLiteral text ∧ q.pattern ≠ "" ∧
        q.flags.toList = before ++ flag :: after ∧ before.Nodup ∧ flag ∈ before ∧ e = repeatedFlag text flag := by
  by_cases hliteral : ∃ q : Regex, q.IsLiteral text
  · obtain ⟨q, hq⟩ := hliteral
    have htext : text ≠ "" := fun hempty => by
      have hlength := congrArg String.length (hq.1.symm.trans hempty)
      simp at hlength
    rw [ofText_of_isLiteral hq]
    constructor
    · intro h
      split at h
      · next hempty =>
        cases h
        exact .inl ⟨.inr ⟨q, hq, hempty⟩, rfl⟩
      · next hne =>
        split at h
        · next flag hflag =>
          cases h
          obtain ⟨before, after, hflags, hnodup, hmem⟩ := duplicate?_nil_eq_some_iff.mp hflag
          exact .inr ⟨q, before, after, flag, hq, hne, hflags, hnodup, hmem, rfl⟩
        · cases h
    · rintro (⟨hempty, rfl⟩ | ⟨q', before, after, flag, hq', hne, hflags, hnodup, hmem, rfl⟩)
      · obtain ⟨q', hq', hempty⟩ := hempty.resolve_left htext
        obtain rfl := hq'.unique hq
        exact if_pos hempty
      · obtain rfl := hq'.unique hq
        rw [if_neg hne, duplicate?_nil_eq_some_iff.mpr ⟨before, after, hflags, hnodup, hmem⟩]
  · have hno : ∀ q : Regex, ¬q.IsLiteral text := fun q hq => hliteral ⟨q, hq⟩
    rw [ofText_of_not_isLiteral hno]
    grind

/-- **Regular expressions are split exactly.** A text is read as a pattern and flags if it is the literal of both, the
pattern is not empty and no flag occurs twice, whatever slashes the pattern holds; a text that is no literal and not
empty is a pattern without flags. What is refused is the empty text, and a literal with an empty pattern or with a flag
that occurs twice. -/
theorem ofText_exact (text : String) :
    (∀ r : Regex, ofText text = .ok r ↔ r.pattern ≠ "" ∧
      (r.IsLiteral text ∧ r.flags.toList.Nodup ∨ r = ⟨text, ""⟩ ∧ ∀ q : Regex, ¬q.IsLiteral text)) ∧
    ((∃ e, ofText text = .error e) ↔
      text = "" ∨ ∃ q : Regex, q.IsLiteral text ∧ (q.pattern = "" ∨ ¬q.flags.toList.Nodup)) := by
  refine ⟨fun r => ofText_eq_ok_iff, ?_⟩
  constructor
  · rintro ⟨e, h⟩
    obtain ⟨htext | ⟨q, hq, hempty⟩, -⟩ | ⟨q, before, after, flag, hq, -, hflags, -, hmem, -⟩ :=
      ofText_eq_error_iff.mp h
    · exact .inl htext
    · exact .inr ⟨q, hq, .inl hempty⟩
    · refine .inr ⟨q, hq, .inr fun hnodup => ?_⟩
      rw [hflags] at hnodup
      exact (List.nodup_append.mp hnodup).2.2 flag hmem flag List.mem_cons_self rfl
  · rintro (htext | ⟨q, hq, hfault⟩)
    · exact ⟨_, ofText_eq_error_iff.mpr (.inl ⟨.inl htext, rfl⟩)⟩
    by_cases hempty : q.pattern = ""
    · exact ⟨_, ofText_eq_error_iff.mpr (.inl ⟨.inr ⟨q, hq, hempty⟩, rfl⟩)⟩
    · have hrepeated : duplicate? [] q.flags.toList ≠ none :=
        fun h => hfault.resolve_left hempty (duplicate?_nil_eq_none_iff.mp h)
      obtain ⟨flag, hflag⟩ := Option.ne_none_iff_exists'.mp hrepeated
      obtain ⟨before, after, hflags, hnodup, hmem⟩ := duplicate?_nil_eq_some_iff.mp hflag
      exact ⟨_, ofText_eq_error_iff.mpr (.inr ⟨q, before, after, flag, hq, hempty, hflags, hnodup, hmem, rfl⟩)⟩

/-- The last segment of a path can be taken for flags. -/
example : ofText "/v1/robots" = .ok ⟨"/v1/robots", ""⟩ ∧ ofText "/v1/sd" = .ok ⟨"v1", "sd"⟩ := ⟨rfl, rfl⟩

end FlowSuite.Regex
