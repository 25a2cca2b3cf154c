import Mathlib.Computability.Language
import Mathlib.Data.List.TakeWhile
import FlowSuite.Proofs.Condition.LongestMatch

/-!
# The languages of the tokens

`languages` says which texts are tokens of which kind, by regular languages and without saying how they are found. Each
rule goes with one of them (`rules_recognize`): it takes texts of its language only, and from every text one that is at
least as long as any other in front (`Rule.Recognizes`), so the longest one (`Rule.Recognizes.eq_some_iff`).

Most languages are a few characters of some classes in a row. Two need an argument of their own: the elements of a
string, which are characters or pairs of characters (`stringElements_mem`, `stringElements_of_mem`), and the parts of a
runtime expression, which are read by a function that remembers what part it is in (`goesOn_runtimeTail`,
`RuntimePart.GoesOn.runtimeTail_eq`).
-/

namespace FlowSuite.Lexer

open scoped Computability

/-! ## Texts of characters of a class -/

/-- The texts of one character of a class. -/
def oneOf (inClass : Char → Bool) : Language Char := {cs | ∃ c, inClass c ∧ cs = [c]}

/-- The language of one text. -/
def spelled (lexeme : String) : Language Char := {lexeme.toList}

/-- One text of a language and more of them behind it. -/
def oneOrMore (L : Language Char) : Language Char := L * L∗

variable {inClass : Char → Bool} {L : Language Char} {cs : List Char}

theorem mem_oneOf_mul : cs ∈ oneOf inClass * L ↔ ∃ c rest, cs = c :: rest ∧ inClass c ∧ rest ∈ L := by
  rw [Language.mem_mul]
  constructor
  · rintro ⟨_, ⟨c, hc, rfl⟩, rest, hrest, rfl⟩
    exact ⟨c, rest, rfl, hc, hrest⟩
  · rintro ⟨c, rest, rfl, hc, hrest⟩
    exact ⟨[c], ⟨c, hc, rfl⟩, rest, hrest, rfl⟩

theorem mem_spelled_mul {lexeme : String} : cs ∈ spelled lexeme * L ↔ ∃ rest ∈ L, cs = lexeme.toList ++ rest := by
  rw [Language.mem_mul]
  constructor
  · rintro ⟨_, rfl, rest, hrest, rfl⟩
    exact ⟨rest, hrest, rfl⟩
  · rintro ⟨rest, hrest, rfl⟩
    exact ⟨_, rfl, rest, hrest, rfl⟩

/-- What is put together of texts of a language is built up from its end. -/
theorem kstar_induction {P : List Char → Prop} (hnil : P []) (happend : ∀ a ∈ L, ∀ b ∈ L∗, P b → P (a ++ b))
    (h : cs ∈ L∗) : P cs := by
  obtain ⟨parts, rfl, hparts⟩ := Language.mem_kstar.mp h
  induction parts with
  | nil => exact hnil
  | cons a parts ih =>
    obtain ⟨ha, hparts⟩ := List.forall_mem_cons.mp hparts
    have hrest : parts.flatten ∈ L∗ := Language.join_mem_kstar hparts
    exact happend a ha _ hrest (ih hparts hrest)

theorem append_mem_kstar {ds : List Char} (h : cs ∈ L) (h' : ds ∈ L∗) : cs ++ ds ∈ L∗ := by
  rw [← Language.one_add_self_mul_kstar_eq_kstar, Language.mem_add]
  exact .inr (Language.append_mem_mul h h')

theorem mem_kstar_oneOf : cs ∈ (oneOf inClass)∗ ↔ ∀ c ∈ cs, inClass c := by
  constructor
  · intro h
    refine kstar_induction (P := fun cs => ∀ c ∈ cs, inClass c) (by simp) ?_ h
    rintro _ ⟨c, hc, rfl⟩ b _ hb
    exact List.forall_mem_cons.mpr ⟨hc, hb⟩
  · intro h
    induction cs with
    | nil => exact Language.nil_mem_kstar _
    | cons c cs ih =>
      obtain ⟨hc, hcs⟩ := List.forall_mem_cons.mp h
      have hone : [c] ∈ oneOf inClass := ⟨c, hc, rfl⟩
      exact append_mem_kstar hone (ih hcs)

theorem mem_oneOrMore_oneOf : cs ∈ oneOrMore (oneOf inClass) ↔ cs ≠ [] ∧ ∀ c ∈ cs, inClass c := by
  rw [oneOrMore, mem_oneOf_mul]
  constructor
  · rintro ⟨c, rest, rfl, hc, hrest⟩
    exact ⟨List.cons_ne_nil c rest, List.forall_mem_cons.mpr ⟨hc, mem_kstar_oneOf.mp hrest⟩⟩
  · rintro ⟨hne, hall⟩
    obtain ⟨c, rest, rfl⟩ := List.exists_cons_of_ne_nil hne
    obtain ⟨hc, hrest⟩ := List.forall_mem_cons.mp hall
    exact ⟨c, rest, rfl, hc, mem_kstar_oneOf.mpr hrest⟩

/-! ## The table -/

/-- An element of a double-quoted string: a character, or a backslash with a character that it escapes. -/
def stringElement : Language Char := oneOf (fun c => c ≠ '"' ∧ c ≠ '\\') + spelled "\\" * oneOf (· ≠ '\n')

/-- The keys of a pointer, each behind a slash. -/
def pointerKeys : Language Char := (spelled "/" * (oneOf isKeyChar)∗)∗

/-- A further part of a runtime expression: a segment behind a point, or a pointer behind a hash sign. -/
def runtimePart : Language Char := spelled "." * oneOrMore (oneOf isSegmentChar) + spelled "#" * pointerKeys

/-- The kinds of tokens with the languages of their lexemes, the spelled ones first. -/
def languages : List (TokenKind × Language Char) :=
  [ (.trueWord, spelled "true"),
    (.falseWord, spelled "false"),
    (.nullWord, spelled "null"),
    (.equal, spelled "=="),
    (.notEqual, spelled "!="),
    (.less, spelled "<"),
    (.lessOrEqual, spelled "<="),
    (.greater, spelled ">"),
    (.greaterOrEqual, spelled ">="),
    (.and, spelled "&&"),
    (.or, spelled "||"),
    (.not, spelled "!"),
    (.openParen, spelled "("),
    (.closeParen, spelled ")"),
    (.openBracket, spelled "["),
    (.closeBracket, spelled "]"),
    (.dot, spelled "."),
    (.runtime, spelled "$" * (oneOf isLetter * ((oneOf isWordChar)∗ * runtimePart∗))),
    (.int, oneOrMore (oneOf Char.isDigit)),
    (.float, oneOrMore (oneOf Char.isDigit) * (spelled "." * oneOrMore (oneOf Char.isDigit))),
    (.string, spelled "\"" * (stringElement∗ * spelled "\"")),
    (.string, spelled "'" * ((oneOf (· ≠ '\''))∗ * spelled "'")),
    (.word, oneOf isLetter * (oneOf isWordChar)∗) ]

/-! ## Rules and languages -/

/-- Takes texts of a language, and from every text with one of its texts in front at least as much. -/
structure Rule.Recognizes (rule : Rule) (L : Language Char) : Prop where
  taken : ∀ {cs lexeme}, rule cs = some lexeme → lexeme ∈ L ∧ lexeme <+: cs
  covers : ∀ {cs other}, other ∈ L → other <+: cs → ∃ lexeme, rule cs = some lexeme ∧ other.length ≤ lexeme.length

/-- A rule that keeps what it takes need only take each text of its language alone. -/
theorem Rule.Keeps.recognizes {rule : Rule} (hkeeps : rule.Keeps) (hfront : rule.TakesFront)
    (hsound : ∀ cs lexeme, rule cs = some lexeme → lexeme ∈ L) (hwhole : ∀ lexeme ∈ L, rule lexeme = some lexeme) :
    rule.Recognizes L where
  taken h := ⟨hsound _ _ h, (hfront h).2⟩
  covers := by
    rintro _ other hother ⟨rest, rfl⟩
    obtain ⟨lexeme, htaken, hle⟩ := hkeeps (hwhole other hother) rest
    exact ⟨lexeme, htaken, hle.length_le⟩

/-- **A rule takes the longest text of its language** that is in front. -/
theorem Rule.Recognizes.eq_some_iff {rule : Rule} (h : rule.Recognizes L) {lexeme : List Char} :
    rule cs = some lexeme ↔ lexeme <+: cs ∧ lexeme ∈ L ∧ ∀ other ∈ L, other <+: cs → other.length ≤ lexeme.length := by
  constructor
  · intro htaken
    obtain ⟨hmem, hfront⟩ := h.taken htaken
    refine ⟨hfront, hmem, fun other hother hcs => ?_⟩
    obtain ⟨_, htaken', hle⟩ := h.covers hother hcs
    cases htaken'.symm.trans htaken
    exact hle
  · rintro ⟨hfront, hmem, hlongest⟩
    obtain ⟨taken, htaken, hle⟩ := h.covers hmem hfront
    obtain ⟨hmem', hfront'⟩ := h.taken htaken
    have hlength := hlongest taken hmem' hfront'
    rw [htaken, (List.prefix_of_prefix_length_le hfront hfront' hle).eq_of_length (by omega)]

theorem recognizes_exactly (c : Char) (cs : List Char) : Rule.Recognizes (exactly (c :: cs)) {c :: cs} := by
  refine Rule.Keeps.recognizes (keeps_exactly _) (takesFront_exactly c cs) ?_ ?_
  · intro text lexeme h
    exact exactly_eq_some h
  · rintro _ rfl
    rw [exactly, if_pos (List.isPrefixOf_iff_prefix.mpr (List.prefix_refl _))]

theorem recognizes_word : Rule.Recognizes word (oneOf isLetter * (oneOf isWordChar)∗) := by
  refine keeps_word.recognizes takesFront_word ?_ ?_
  · intro cs lexeme h
    unfold word at h
    split at h
    · next c cs =>
      split at h
      · next hc =>
        cases h
        exact mem_oneOf_mul.mpr ⟨c, _, rfl, hc, mem_kstar_oneOf.mpr fun d => List.all_eq_true.mp List.all_takeWhile d⟩
      · cases h
    · cases h
  · intro lexeme h
    obtain ⟨c, rest, rfl, hc, hrest⟩ := mem_oneOf_mul.mp h
    rw [word, if_pos hc, List.takeWhile_eq_self_iff.mpr (mem_kstar_oneOf.mp hrest)]

/-- Digits are taken as a whole. -/
theorem int_of_mem {digits : List Char} (h : digits ∈ oneOrMore (oneOf Char.isDigit)) : int digits = some digits := by
  obtain ⟨hne, hall⟩ := mem_oneOrMore_oneOf.mp h
  have htaken := int_append hne hall []
  rwa [List.append_nil, List.takeWhile_nil, List.append_nil] at htaken

theorem mem_of_int {digits : List Char} (h : int cs = some digits) : digits ∈ oneOrMore (oneOf Char.isDigit) := by
  obtain ⟨rfl, hne⟩ := int_eq_some h
  exact mem_oneOrMore_oneOf.mpr ⟨hne, mem_takeWhile_isDigit⟩

theorem recognizes_int : Rule.Recognizes int (oneOrMore (oneOf Char.isDigit)) :=
  keeps_int.recognizes takesFront_int (fun _ _ => mem_of_int) fun _ => int_of_mem

theorem recognizes_float : Rule.Recognizes float
    (oneOrMore (oneOf Char.isDigit) * (spelled "." * oneOrMore (oneOf Char.isDigit))) := by
  refine keeps_float.recognizes takesFront_float ?_ ?_
  · intro cs lexeme h
    obtain ⟨whole, rest, places, -, hplaces, rfl, hne, hwhole⟩ := float_eq_some h
    exact Language.append_mem_mul (mem_oneOrMore_oneOf.mpr ⟨hne, hwhole⟩)
      (mem_spelled_mul.mpr ⟨places, mem_of_int hplaces, rfl⟩)
  · intro lexeme h
    obtain ⟨whole, hwhole, _, hrest, rfl⟩ := Language.mem_mul.mp h
    obtain ⟨places, hplaces, rfl⟩ := mem_spelled_mul.mp hrest
    obtain ⟨hne, hall⟩ := mem_oneOrMore_oneOf.mp hwhole
    have hdot : ¬('.' : Char).isDigit := by decide
    have hint : int (whole ++ '.' :: places) = some whole := by
      rw [int_append hne hall, List.takeWhile_cons_of_neg hdot, List.append_nil]
    have hdrop : (whole ++ '.' :: places).dropWhile Char.isDigit = '.' :: places := by
      rw [List.dropWhile_append_of_pos hall, List.dropWhile_cons_of_neg hdot]
    have hpoint : ".".toList ++ places = '.' :: places := rfl
    simp only [hpoint, float, hint, hdrop, int_of_mem hplaces, Option.map_some]

/-! ## Strings -/

theorem stringElements_mem (cs : List Char) : stringElements cs ∈ stringElement∗ := by
  induction cs using stringElements.induct with
  | case1 => exact Language.nil_mem_kstar _
  | case2 c cs hc ih =>
    have hpair : ['\\', c] ∈ stringElement := by
      rw [stringElement, Language.mem_add, mem_spelled_mul]
      exact .inr ⟨[c], ⟨c, decide_eq_true hc, rfl⟩, rfl⟩
    rw [stringElements, if_neg hc]
    exact append_mem_kstar hpair ih
  | case3 c cs hpair hc =>
    rw [stringElements.eq_2 c cs hpair, if_pos hc]
    exact Language.nil_mem_kstar _
  | case4 c cs hpair hc ih =>
    have hone : [c] ∈ stringElement := by
      rw [stringElement, Language.mem_add]
      exact .inl ⟨c, decide_eq_true (not_or.mp hc), rfl⟩
    rw [stringElements.eq_2 c cs hpair, if_neg hc]
    exact append_mem_kstar hone ih
  | case5 => exact Language.nil_mem_kstar _

/-- In front of a quote the elements are taken as a whole. -/
theorem stringElements_of_mem (h : cs ∈ stringElement∗) (rest : List Char) :
    stringElements (cs ++ '"' :: rest) = cs := by
  refine kstar_induction (P := fun cs => stringElements (cs ++ '"' :: rest) = cs) ?_ ?_ h
  · rw [List.nil_append, stringElements.eq_2 '"' rest (by intro _ _ he; cases he), if_pos (.inl rfl)]
  · intro a ha b _ hb
    rw [stringElement, Language.mem_add, mem_spelled_mul] at ha
    rcases ha with ⟨c, hc, rfl⟩ | ⟨_, ⟨c, hc, rfl⟩, rfl⟩
    · obtain ⟨hquote, hslash⟩ := of_decide_eq_true hc
      rw [List.singleton_append, List.cons_append, stringElements.eq_2 c _ fun _ _ he => absurd he hslash,
        if_neg (not_or.mpr ⟨hquote, hslash⟩), hb]
    · have hpair : "\\".toList ++ [c] ++ b ++ '"' :: rest = '\\' :: c :: (b ++ '"' :: rest) := rfl
      rw [hpair, stringElements, if_neg (of_decide_eq_true hc), hb]
      rfl

theorem recognizes_doubleQuoted : Rule.Recognizes doubleQuoted (spelled "\"" * (stringElement∗ * spelled "\"")) := by
  refine Rule.Keeps.recognizes closes_doubleQuoted.keeps takesFront_doubleQuoted ?_ ?_
  · intro cs lexeme h
    obtain ⟨inside, rest, -, -, rfl⟩ := doubleQuoted_eq_some h
    exact mem_spelled_mul.mpr ⟨_, Language.append_mem_mul (stringElements_mem inside) rfl, rfl⟩
  · intro lexeme h
    obtain ⟨_, hrest, rfl⟩ := mem_spelled_mul.mp h
    obtain ⟨inside, hinside, _, rfl, rfl⟩ := Language.mem_mul.mp hrest
    have helements : stringElements (inside ++ ['"']) = inside := stringElements_of_mem hinside []
    have hlexeme : "\"".toList ++ (inside ++ "\"".toList) = '"' :: (inside ++ ['"']) := rfl
    rw [hlexeme, doubleQuoted, helements, List.drop_left]
    rfl

theorem recognizes_singleQuoted :
    Rule.Recognizes singleQuoted (spelled "'" * ((oneOf (· ≠ '\''))∗ * spelled "'")) := by
  refine Rule.Keeps.recognizes closes_singleQuoted.keeps takesFront_singleQuoted ?_ ?_
  · intro cs lexeme h
    obtain ⟨inner, rest, -, rfl, hinner⟩ := singleQuoted_eq_some h
    have hquiet : inner ∈ (oneOf (· ≠ '\''))∗ := by
      refine mem_kstar_oneOf.mpr fun c hc => decide_eq_true ?_
      rintro rfl
      exact hinner hc
    exact mem_spelled_mul.mpr ⟨_, Language.append_mem_mul hquiet rfl, rfl⟩
  · intro lexeme h
    obtain ⟨_, hrest, rfl⟩ := mem_spelled_mul.mp h
    obtain ⟨inner, hinner, _, rfl, rfl⟩ := Language.mem_mul.mp hrest
    have hquiet : ∀ c ∈ inner, decide (c ≠ '\'') := mem_kstar_oneOf.mp hinner
    have htake : (inner ++ ['\'']).takeWhile (· ≠ '\'') = inner := by
      rw [List.takeWhile_append_of_pos hquiet, List.takeWhile_cons_of_neg (by decide), List.append_nil]
    have hdrop : (inner ++ ['\'']).dropWhile (· ≠ '\'') = ['\''] := by
      rw [List.dropWhile_append_of_pos hquiet, List.dropWhile_cons_of_neg (by decide)]
    have hlexeme : "'".toList ++ (inner ++ "'".toList) = '\'' :: (inner ++ ['\'']) := rfl
    rw [hlexeme, singleQuoted, hdrop, htake]
    rfl

/-! ## Runtime expressions -/

/-- What can go on behind the beginning of a part: characters that continue it, in a pointer further keys, and further
parts. -/
def RuntimePart.GoesOn (part : RuntimePart) (cs : List Char) : Prop :=
  ∃ own keys parts, cs = own ++ (keys ++ parts) ∧ (∀ c ∈ own, part.continues c) ∧ keys ∈ pointerKeys ∧
    (keys ≠ [] → part.inPointer) ∧ parts ∈ runtimePart∗

namespace RuntimePart.GoesOn

variable {part : RuntimePart} {c : Char}

theorem nothing : part.GoesOn [] :=
  ⟨[], [], [], rfl, by simp, Language.nil_mem_kstar _, by simp, Language.nil_mem_kstar _⟩

theorem further {ds : List Char} (hds : ds ∈ runtimePart) {parts : List Char} (hparts : parts ∈ runtimePart∗) :
    part.GoesOn (ds ++ parts) :=
  ⟨[], [], ds ++ parts, rfl, by simp, Language.nil_mem_kstar _, by simp, append_mem_kstar hds hparts⟩

theorem own (hc : part.continues c) (h : part.GoesOn cs) : part.GoesOn (c :: cs) := by
  obtain ⟨own, keys, parts, rfl, hown, hrest⟩ := h
  exact ⟨c :: own, keys, parts, rfl, List.forall_mem_cons.mpr ⟨hc, hown⟩, hrest⟩

/-- A pointer has only keys behind its hash sign. -/
theorem pointer (h : RuntimePart.hash.GoesOn cs) : part.GoesOn ('#' :: cs) := by
  obtain ⟨own, keys, parts, rfl, hown, hkeys, -, hparts⟩ := h
  have hnil : own = [] := by
    refine List.eq_nil_iff_forall_not_mem.mpr fun d hd => ?_
    exact absurd (hown d hd) (by simp [RuntimePart.continues])
  subst hnil
  have hpointer : '#' :: keys ∈ runtimePart := by
    rw [runtimePart, Language.mem_add]
    exact .inr (mem_spelled_mul.mpr ⟨keys, hkeys, rfl⟩)
  exact further hpointer hparts

/-- A key of a pointer goes on up to the next one. -/
theorem key (hpart : part.inPointer) (h : RuntimePart.key.GoesOn cs) : part.GoesOn ('/' :: cs) := by
  obtain ⟨own, keys, parts, rfl, hown, hkeys, -, hparts⟩ := h
  have hkey : '/' :: own ∈ spelled "/" * (oneOf isKeyChar)∗ :=
    mem_spelled_mul.mpr ⟨own, mem_kstar_oneOf.mpr hown, rfl⟩
  refine ⟨[], '/' :: own ++ keys, parts, ?_, by simp, append_mem_kstar hkey hkeys, fun _ => hpart, hparts⟩
  rw [List.nil_append, List.cons_append, List.cons_append, List.append_assoc]

/-- A segment has a character behind its point, and no keys. -/
theorem segment (hc : isSegmentChar c) (h : RuntimePart.segment.GoesOn cs) : part.GoesOn ('.' :: c :: cs) := by
  obtain ⟨own, keys, parts, rfl, hown, hkeys, hpointer, hparts⟩ := h
  have hnil : keys = [] := by
    by_contra hne
    exact absurd (hpointer hne) (by decide)
  subst hnil
  have hsegment : '.' :: c :: own ∈ runtimePart := by
    rw [runtimePart, Language.mem_add]
    refine .inl (mem_spelled_mul.mpr ⟨c :: own, mem_oneOrMore_oneOf.mpr ⟨List.cons_ne_nil c own, ?_⟩, rfl⟩)
    exact List.forall_mem_cons.mpr ⟨hc, hown⟩
  exact further hsegment hparts

end RuntimePart.GoesOn

/-- The tail of a runtime expression goes on with the part it is read in. -/
theorem goesOn_runtimeTail : ∀ (part : RuntimePart) (cs : List Char), part.GoesOn (runtimeTail part cs)
  | _, [] => .nothing
  | part, c :: cs => by
    rw [runtimeTail]
    split
    · next hc => exact .own hc (goesOn_runtimeTail part cs)
    split
    · next hc =>
      subst hc
      exact .pointer (goesOn_runtimeTail .hash cs)
    split
    · next hc =>
      obtain ⟨rfl, hpart⟩ := hc
      exact .key hpart (goesOn_runtimeTail .key cs)
    split
    · next hc =>
      obtain ⟨rfl, hsegment⟩ := hc
      cases cs with
      | nil => simp at hsegment
      | cons d ds =>
        have hd : isSegmentChar d := by simpa using hsegment
        have hcontinues : RuntimePart.segment.continues d := hd
        rw [runtimeTail, if_pos hcontinues]
        exact .segment hd (goesOn_runtimeTail .segment ds)
    · exact .nothing

theorem runtimeTail_keys {keys rest : List Char} (hrest : ∀ part, runtimeTail part rest = rest)
    (h : keys ∈ pointerKeys) :
    ∀ part : RuntimePart, part.inPointer → runtimeTail part (keys ++ rest) = keys ++ rest := by
  refine kstar_induction (P := fun keys => ∀ part : RuntimePart, part.inPointer →
    runtimeTail part (keys ++ rest) = keys ++ rest) ?_ ?_ h
  · exact fun part _ => hrest part
  · intro key hkey more _ ih part hpart
    obtain ⟨own, hown, rfl⟩ := mem_spelled_mul.mp hkey
    have hslash : ¬part.continues '/' := by cases part <;> decide
    have hown' : ∀ c ∈ own, RuntimePart.key.continues c := mem_kstar_oneOf.mp hown
    have hsplit : "/".toList ++ own ++ more ++ rest = '/' :: (own ++ (more ++ rest)) := by simp
    rw [hsplit, runtimeTail, if_neg hslash, if_neg (by decide), if_pos ⟨rfl, hpart⟩, runtimeTail_append hown',
      ih .key rfl]

theorem runtimeTail_parts (h : cs ∈ runtimePart∗) : ∀ part, runtimeTail part cs = cs := by
  refine kstar_induction (P := fun cs => ∀ part, runtimeTail part cs = cs) (fun _ => by rw [runtimeTail]) ?_ h
  intro a ha rest _ ih part
  rw [runtimePart, Language.mem_add] at ha
  rcases ha with ha | ha
  · obtain ⟨own, hown, rfl⟩ := mem_spelled_mul.mp ha
    obtain ⟨hne, hall⟩ := mem_oneOrMore_oneOf.mp hown
    obtain ⟨c, word, rfl⟩ := List.exists_cons_of_ne_nil hne
    have hdot : ¬part.continues '.' := by cases part <;> decide
    have hall' : ∀ d ∈ c :: word, RuntimePart.segment.continues d := hall
    have hsplit : ".".toList ++ (c :: word) ++ rest = '.' :: c :: (word ++ rest) := rfl
    rw [hsplit, runtimeTail_segment hdot (hall c List.mem_cons_self), ← List.cons_append, runtimeTail_append hall',
      ih .segment]
  · obtain ⟨keys, hkeys, rfl⟩ := mem_spelled_mul.mp ha
    have hhash : ¬part.continues '#' := by cases part <;> decide
    have hsplit : "#".toList ++ keys ++ rest = '#' :: (keys ++ rest) := rfl
    rw [hsplit, runtimeTail, if_neg hhash, if_pos rfl, runtimeTail_keys ih hkeys .hash rfl]

/-- A text that goes on with a part is taken as a whole. -/
theorem RuntimePart.GoesOn.runtimeTail_eq {part : RuntimePart} (h : part.GoesOn cs) : runtimeTail part cs = cs := by
  obtain ⟨own, keys, parts, rfl, hown, hkeys, hpointer, hparts⟩ := h
  have hread := runtimeTail_parts hparts
  rw [runtimeTail_append hown]
  by_cases hnil : keys = []
  · rw [hnil, List.nil_append, hread]
  · rw [runtimeTail_keys hread hkeys part (hpointer hnil)]

theorem goesOn_word_iff : RuntimePart.word.GoesOn cs ↔ cs ∈ (oneOf isWordChar)∗ * runtimePart∗ := by
  rw [Language.mem_mul]
  constructor
  · rintro ⟨own, keys, parts, rfl, hown, -, hpointer, hparts⟩
    have hnil : keys = [] := by
      by_contra hne
      exact absurd (hpointer hne) (by decide)
    exact ⟨own, mem_kstar_oneOf.mpr hown, parts, hparts, by rw [hnil, List.nil_append]⟩
  · rintro ⟨own, hown, parts, hparts, rfl⟩
    exact ⟨own, [], parts, rfl, mem_kstar_oneOf.mp hown, Language.nil_mem_kstar _, by simp, hparts⟩

theorem recognizes_runtime :
    Rule.Recognizes runtime (spelled "$" * (oneOf isLetter * ((oneOf isWordChar)∗ * runtimePart∗))) := by
  refine keeps_runtime.recognizes takesFront_runtime ?_ ?_
  · intro cs lexeme h
    unfold runtime at h
    split at h
    · next c cs =>
      split at h
      · next hc =>
        cases h
        have htail := goesOn_word_iff.mp (goesOn_runtimeTail .word cs)
        exact mem_spelled_mul.mpr ⟨_, mem_oneOf_mul.mpr ⟨c, _, rfl, hc, htail⟩, rfl⟩
      · cases h
    · cases h
  · intro lexeme h
    obtain ⟨_, hrest, rfl⟩ := mem_spelled_mul.mp h
    obtain ⟨c, tail, rfl, hc, htail⟩ := mem_oneOf_mul.mp hrest
    have hlexeme : "$".toList ++ c :: tail = '$' :: c :: tail := rfl
    rw [hlexeme, runtime, if_pos hc, (goesOn_word_iff.mpr htail).runtimeTail_eq]

/-! ## All rules -/

/-- **The rules go with the languages of the table**, one with one and in the same order. -/
theorem rules_recognize :
    List.Forall₂ (fun rule entry => rule.1 = entry.1 ∧ rule.2.Recognizes entry.2) rules languages := by
  unfold rules languages
  iterate 17 refine .cons ⟨rfl, recognizes_exactly _ _⟩ ?_
  refine .cons ⟨rfl, recognizes_runtime⟩ ?_
  refine .cons ⟨rfl, recognizes_int⟩ (.cons ⟨rfl, recognizes_float⟩ ?_)
  refine .cons ⟨rfl, recognizes_doubleQuoted⟩ (.cons ⟨rfl, recognizes_singleQuoted⟩ ?_)
  exact .cons ⟨rfl, recognizes_word⟩ .nil

end FlowSuite.Lexer
