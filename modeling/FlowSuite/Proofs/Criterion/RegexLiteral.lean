import FlowSuite.Criterion.Compile
import FlowSuite.Script.Printer

/-!
# Where a regular expression literal ends

A reader of scripts takes a regular expression literal character by character (`Script.scanRegex?`): a backslash takes
the character behind it, and the first slash outside of classes is the last one. While it goes over a printed pattern it
is always where the pattern itself is, behind a backslash or inside a class (`takes_escapeInRegex`). So it stops at the
slash that is printed behind the pattern exactly if the pattern leaves neither of them open (`IsWhole`), and the slash
in front begins a literal exactly if no star follows it (`scanRegex?_regexText_iff`).

Patterns are printed without a look at this. A pattern that ends in a backslash takes the closing slash into the
literal (`not_scanRegex?_folder`).
-/

namespace FlowSuite

namespace Script

/-! ## Reading a literal -/

/-- Where in a pattern a reader is: right behind a backslash or not, and inside a class or not. -/
structure PatternPlace where
  escaped : Bool
  inClass : Bool
deriving DecidableEq, Repr

namespace PatternPlace

/-- In front of a pattern. -/
def start : PatternPlace := ⟨false, false⟩

/-- The place behind a character. -/
def step : PatternPlace → Char → PatternPlace
  | ⟨true, inClass⟩, _ => ⟨false, inClass⟩
  | ⟨false, inClass⟩, c => ⟨c = '\\', if c = '[' then true else if c = ']' then false else inClass⟩

/-- The place behind a text. -/
def steps (p : PatternPlace) (cs : List Char) : PatternPlace := cs.foldl step p

@[simp] theorem steps_nil (p : PatternPlace) : p.steps [] = p := rfl

@[simp] theorem steps_cons (p : PatternPlace) (c : Char) (cs : List Char) :
    p.steps (c :: cs) = (p.step c).steps cs := rfl

theorem steps_append (p : PatternPlace) (cs ds : List Char) : p.steps (cs ++ ds) = (p.steps cs).steps ds :=
  List.foldl_append

theorem step_start {c : Char} (hslash : c ≠ '\\') (hopen : c ≠ '[') : start.step c = start := by
  simp [step, start, hslash, hopen]

theorem step_inClass {c : Char} (hslash : c ≠ '\\') (hclose : c ≠ ']') : step ⟨false, true⟩ c = ⟨false, true⟩ := by
  simp [step, hslash, hclose]

end PatternPlace

/-- The characters that end a line. -/
def isLineTerminator (c : Char) : Bool := c ∈ ['\n', '\r', '\u2028', '\u2029']

/-- Reads a literal from a place in its pattern: what is left of the pattern, and the text behind the slash that ends
it. No line terminator stands in a literal. -/
def scanBody? : PatternPlace → List Char → Option (List Char × List Char)
  | _, [] => none
  | p, c :: cs =>
    if isLineTerminator c then none
    else if c = '/' ∧ p = .start then some ([], cs)
    else (scanBody? (p.step c) cs).map fun found => (c :: found.1, found.2)

/-- The pattern of the literal that a text begins with, as it is written, and the text behind its last slash. A slash
and a star, or two slashes, begin a comment. -/
def scanRegex? : List Char → Option (List Char × List Char)
  | '/' :: cs => if cs.head? = some '*' ∨ cs.head? = some '/' then none else scanBody? .start cs
  | _ => none

/-! ## Reading what is printed -/

variable {c : Char} {cs : List Char} {p q : PatternPlace}

/-- A reader takes a text on its way from one place to another. -/
def Takes (p : PatternPlace) (cs : List Char) (q : PatternPlace) : Prop :=
  ∀ rest, scanBody? p (cs ++ rest) = (scanBody? q rest).map fun found => (cs ++ found.1, found.2)

theorem Takes.nil (p : PatternPlace) : Takes p [] p := by
  intro rest
  simp

/-- A character that ends no line and no literal is taken. -/
theorem Takes.cons (hline : ¬isLineTerminator c) (hend : ¬(c = '/' ∧ p = .start)) (h : Takes (p.step c) cs q) :
    Takes p (c :: cs) q := by
  intro rest
  rw [List.cons_append, scanBody?, if_neg hline, if_neg hend, h, Option.map_map]
  rfl

theorem Takes.append {ds : List Char} {r : PatternPlace} (h : Takes p cs q) (h' : Takes q ds r) :
    Takes p (cs ++ ds) r := by
  intro rest
  rw [List.append_assoc, h, h', Option.map_map]
  simp [Function.comp_def]

/-- The slash ends a literal where neither an escape nor a class is open, and nowhere else. -/
theorem scanBody?_slash_iff (p : PatternPlace) (cs : List Char) :
    scanBody? p ('/' :: cs) = some ([], cs) ↔ p = .start := by
  rw [scanBody?, if_neg (by decide)]
  split
  · next h => exact iff_of_true rfl h.2
  · next h => simpa using fun hp => h ⟨rfl, hp⟩

theorem lineTerminator?_eq_none_iff : lineTerminator? c = none ↔ ¬isLineTerminator c := by
  grind [lineTerminator?, isLineTerminator]

theorem exists_spelling (h : isLineTerminator c) : ∃ spelling, lineTerminator? c = some spelling :=
  Option.ne_none_iff_exists'.mp fun hnone => lineTerminator?_eq_none_iff.mp hnone h

/-- A line terminator is spelled by characters that mean nothing in a pattern. -/
theorem lineTerminator?_spelling {spelling : List Char} (h : lineTerminator? c = some spelling) :
    spelling ≠ [] ∧ ∀ d ∈ spelling, ¬isLineTerminator d ∧ d ≠ '\\' ∧ d ≠ '[' ∧ d ≠ ']' ∧ d ≠ '/' := by
  unfold lineTerminator? at h
  split at h
  · cases h; simp [isLineTerminator]
  split at h
  · cases h; simp [isLineTerminator]
  split at h
  · cases h; simp [isLineTerminator]
  split at h
  · cases h; simp [isLineTerminator]
  · cases h

/-- Outside of escapes, characters that mean nothing in a pattern are taken one by one. -/
theorem takes_plain {inClass : Bool}
    (h : ∀ c ∈ cs, ¬isLineTerminator c ∧ c ≠ '\\' ∧ c ≠ '[' ∧ c ≠ ']' ∧ c ≠ '/') :
    Takes ⟨false, inClass⟩ cs ⟨false, inClass⟩ := by
  induction cs with
  | nil => exact Takes.nil _
  | cons c cs ih =>
    obtain ⟨⟨hline, hslash, hopen, hclose, hend⟩, hcs⟩ := List.forall_mem_cons.mp h
    refine Takes.cons hline (fun h => hend h.1) ?_
    simpa [PatternPlace.step, hslash, hopen, hclose] using ih hcs

/-- Behind a backslash any character is taken that ends no line. -/
theorem takes_escaped {inClass : Bool} (hline : ¬isLineTerminator c) (h : Takes ⟨false, inClass⟩ cs q) :
    Takes ⟨true, inClass⟩ (c :: cs) q :=
  Takes.cons hline (by simp [PatternPlace.start]) h

/-- A character that needs no escape is printed as it is. -/
theorem escapeInRegex_cons (hline : ¬isLineTerminator c) (hend : ¬(c = '/' ∧ p = .start)) (cs : List Char) :
    escapeInRegex p.escaped p.inClass (c :: cs) =
      c :: escapeInRegex (p.step c).escaped (p.step c).inClass cs := by
  obtain ⟨escaped, inClass⟩ := p
  rw [escapeInRegex, lineTerminator?_eq_none_iff.mpr hline]
  cases escaped with
  | true => rfl
  | false =>
    simp only [PatternPlace.step, PatternPlace.start] at hend ⊢
    grind

/-- **A reader follows a printed pattern.** It takes all of it and is then where the pattern is. -/
theorem takes_escapeInRegex (p : PatternPlace) (cs : List Char) :
    Takes p (escapeInRegex p.escaped p.inClass cs) (p.steps cs) := by
  induction cs generalizing p with
  | nil => exact Takes.nil _
  | cons c cs ih =>
    rw [PatternPlace.steps_cons]
    by_cases hline : isLineTerminator c
    · obtain ⟨escaped, inClass⟩ := p
      obtain ⟨spelling, hspelling⟩ := exists_spelling hline
      obtain ⟨hne, hplain⟩ := lineTerminator?_spelling hspelling
      obtain ⟨d, ds, rfl⟩ := List.exists_cons_of_ne_nil hne
      have htail : Takes ⟨true, inClass⟩ (d :: ds ++ escapeInRegex false inClass cs)
          (PatternPlace.steps ⟨false, inClass⟩ cs) :=
        takes_escaped (hplain d List.mem_cons_self).1
          ((takes_plain fun e he => hplain e (List.mem_cons_of_mem d he)).append (ih ⟨false, inClass⟩))
      have hstep : PatternPlace.step ⟨escaped, inClass⟩ c = ⟨false, inClass⟩ := by
        cases escaped with
        | true => rfl
        | false =>
          simp only [isLineTerminator, List.mem_cons, List.not_mem_nil, or_false, decide_eq_true_eq] at hline
          rcases hline with rfl | rfl | rfl | rfl <;> rfl
      rw [escapeInRegex, hspelling, hstep]
      cases escaped with
      | true => exact htail
      | false => exact Takes.cons (by decide) (by simp) htail
    · by_cases hend : c = '/' ∧ p = .start
      · obtain ⟨rfl, rfl⟩ := hend
        exact Takes.cons (by decide) (by decide) (takes_escaped (by decide) (ih .start))
      · rw [escapeInRegex_cons hline hend]
        exact Takes.cons hline hend (ih (p.step c))

/-- What is printed begins with no slash, and with a star exactly if the pattern does. -/
theorem escapeInRegex_eq_cons (hne : cs ≠ []) : ∃ d ds, escapeInRegex false false cs = d :: ds ∧ d ≠ '/' ∧
    (d = '*' ↔ cs.head? = some '*') := by
  obtain ⟨c, cs, rfl⟩ := List.exists_cons_of_ne_nil hne
  by_cases hline : isLineTerminator c
  · obtain ⟨spelling, hspelling⟩ := exists_spelling hline
    have hstar : c ≠ '*' := fun h => by subst h; exact absurd hline (by decide)
    rw [escapeInRegex, hspelling]
    exact ⟨'\\', _, rfl, by decide, by simp [hstar]⟩
  · by_cases hslash : c = '/'
    · subst hslash
      exact ⟨'\\', _, rfl, by decide, by simp⟩
    · exact ⟨c, _, escapeInRegex_cons (p := .start) hline (fun h => hslash h.1) cs, hslash, by simp⟩

/-! ## Patterns that leave nothing open -/

/-- The inside of a class. -/
inductive IsClassBody : List Char → Prop
  | nil : IsClassBody []
  | escape (c : Char) {cs : List Char} : IsClassBody cs → IsClassBody ('\\' :: c :: cs)
  | char {c : Char} {cs : List Char} : c ≠ '\\' → c ≠ ']' → IsClassBody cs → IsClassBody (c :: cs)

/-- A row of characters, escapes and classes. No backslash stands alone at the end, and every class has its end. -/
inductive IsWhole : List Char → Prop
  | nil : IsWhole []
  | escape (c : Char) {cs : List Char} : IsWhole cs → IsWhole ('\\' :: c :: cs)
  | charClass {inner cs : List Char} : IsClassBody inner → IsWhole cs → IsWhole ('[' :: (inner ++ ']' :: cs))
  | char {c : Char} {cs : List Char} : c ≠ '\\' → c ≠ '[' → IsWhole cs → IsWhole (c :: cs)

theorem IsClassBody.steps_eq (h : IsClassBody cs) : PatternPlace.steps ⟨false, true⟩ cs = ⟨false, true⟩ := by
  induction h with
  | nil => rfl
  | escape c _ ih => exact ih
  | @char c cs hslash hclose _ ih =>
    rw [PatternPlace.steps_cons, PatternPlace.step_inClass hslash hclose, ih]

theorem IsWhole.steps_eq (h : IsWhole cs) : PatternPlace.start.steps cs = .start := by
  induction h with
  | nil => rfl
  | escape c _ ih => exact ih
  | charClass hinner _ ih =>
    rw [PatternPlace.steps_cons, PatternPlace.steps_append]
    exact (congrArg (PatternPlace.steps · _) hinner.steps_eq).trans ih
  | @char c cs hslash hopen _ ih =>
    rw [PatternPlace.steps_cons, PatternPlace.step_start hslash hopen, ih]

/-- A class that is left again has its end. -/
theorem exists_classBody : ∀ {cs : List Char}, PatternPlace.steps ⟨false, true⟩ cs = .start →
    ∃ inner rest, cs = inner ++ ']' :: rest ∧ IsClassBody inner ∧ PatternPlace.start.steps rest = .start
  | [], h => by cases h
  | c :: cs, h => by
    by_cases hclose : c = ']'
    · subst hclose
      exact ⟨[], cs, rfl, .nil, h⟩
    by_cases hslash : c = '\\'
    · subst hslash
      match cs, h with
      | [], h => cases h
      | d :: cs, h =>
        have hbody : PatternPlace.steps ⟨false, true⟩ cs = .start := h
        obtain ⟨inner, rest, rfl, hinner, hrest⟩ := exists_classBody hbody
        exact ⟨'\\' :: d :: inner, rest, rfl, hinner.escape d, hrest⟩
    · rw [PatternPlace.steps_cons, PatternPlace.step_inClass hslash hclose] at h
      obtain ⟨inner, rest, rfl, hinner, hrest⟩ := exists_classBody h
      exact ⟨c :: inner, rest, rfl, hinner.char hslash hclose, hrest⟩

theorem isWhole_of_steps (h : PatternPlace.start.steps cs = .start) : IsWhole cs := by
  induction hn : cs.length using Nat.strongRecOn generalizing cs with
  | _ n ih =>
    subst hn
    cases cs with
    | nil => exact .nil
    | cons c cs =>
      by_cases hslash : c = '\\'
      · subst hslash
        cases cs with
        | nil => cases h
        | cons d cs =>
          have hrest : PatternPlace.start.steps cs = .start := h
          exact (ih _ (by simp only [List.length_cons]; omega) hrest rfl).escape d
      by_cases hopen : c = '['
      · subst hopen
        obtain ⟨inner, rest, rfl, hinner, hrest⟩ := exists_classBody h
        exact .charClass hinner (ih _ (by simp; omega) hrest rfl)
      · rw [PatternPlace.steps_cons, PatternPlace.step_start hslash hopen] at h
        exact (ih _ (by simp) h rfl).char hslash hopen

/-- **A pattern leaves nothing open exactly if it is a row of characters, escapes and classes.** -/
theorem steps_eq_start_iff : PatternPlace.start.steps cs = .start ↔ IsWhole cs :=
  ⟨isWhole_of_steps, IsWhole.steps_eq⟩

/-- **A printed pattern is scanned up to the slash behind it exactly if it is whole and begins with no star.** -/
theorem scanRegex?_printed_iff (hne : cs ≠ []) (rest : List Char) :
    scanRegex? ('/' :: (escapeInRegex false false cs ++ '/' :: rest)) = some (escapeInRegex false false cs, rest) ↔
      cs.head? ≠ some '*' ∧ IsWhole cs := by
  obtain ⟨d, ds, hprinted, hslash, hstar⟩ := escapeInRegex_eq_cons hne
  have htake : scanBody? .start (escapeInRegex false false cs ++ '/' :: rest) =
      (scanBody? (PatternPlace.start.steps cs) ('/' :: rest)).map fun found =>
        (escapeInRegex false false cs ++ found.1, found.2) := takes_escapeInRegex .start cs ('/' :: rest)
  have hhead : (escapeInRegex false false cs ++ '/' :: rest).head? = some d := by
    rw [hprinted]
    rfl
  rw [scanRegex?, hhead, htake, ne_eq, ← hstar, ← steps_eq_start_iff, ← scanBody?_slash_iff _ rest]
  simp only [Option.some.injEq, hslash, or_false]
  split
  · next h => simp [h]
  · next h => simp [h, Option.map_eq_some_iff, Prod.ext_iff]

end Script

namespace Regex

theorem duplicate?_eq_none_iff {seen cs : List Char} :
    duplicate? seen cs = none ↔ cs.Nodup ∧ ∀ c ∈ cs, c ∉ seen := by
  induction cs generalizing seen with
  | nil => simp [duplicate?]
  | cons c cs ih =>
    rw [duplicate?]
    split
    · next h => simp [h]
    · next h =>
      rw [ih]
      grind

/-- A text that is read as a regular expression has a pattern, and no flag twice. -/
theorem of_ofText {text : String} {r : Regex} (h : ofText text = .ok r) :
    r.pattern.toList ≠ [] ∧ r.flags.toList.Nodup := by
  unfold ofText at h
  simp only at h
  split at h
  · cases h
  split at h
  · cases h
  · next hne _ hflags =>
    cases h
    simp only [String.toList_ofList]
    exact ⟨by simpa using hne, (duplicate?_eq_none_iff.mp hflags).1⟩

end Regex

open Script (scanRegex? regexText escapeInRegex IsWhole)

/-- **A text that is accepted as a regular expression is printed as one literal with valid flags exactly if its pattern
is whole and begins with no star, and `u` and `v` are not both among its flags.** The literal ends at the slash in front
of the flags, whatever stands behind it. -/
theorem Regex.scanRegex?_regexText_iff {text : String} {r : Regex} (h : Regex.ofText text = .ok r) (level : Nat)
    (rest : List Char) :
    (scanRegex? (r.toExpr.text level ++ rest) =
        some (escapeInRegex false false r.pattern.toList, r.flags.toList ++ rest) ∧
      r.flags.toList.Nodup ∧ ¬('u' ∈ r.flags.toList ∧ 'v' ∈ r.flags.toList)) ↔
    (r.pattern.toList.head? ≠ some '*' ∧ IsWhole r.pattern.toList) ∧
      ¬('u' ∈ r.flags.toList ∧ 'v' ∈ r.flags.toList) := by
  obtain ⟨hne, hflags⟩ := Regex.of_ofText h
  have hprinted : r.toExpr.text level = regexText r.pattern r.flags := rfl
  have htext : regexText r.pattern r.flags ++ rest =
      '/' :: (escapeInRegex false false r.pattern.toList ++ '/' :: (r.flags.toList ++ rest)) := by
    simp [regexText]
  rw [hprinted, htext, Script.scanRegex?_printed_iff hne]
  simp [hflags]

/-- Slashes in a class and behind a backslash, a line feed, and a slash in the text behind the literal. -/
theorem scanRegex?_regexText_iff_slashes :
    Regex.ofText "/[^/]\\/(\n|\\d+)/gi" = .ok ⟨"[^/]\\/(\n|\\d+)", "gi"⟩ ∧
      scanRegex? ((Regex.mk "[^/]\\/(\n|\\d+)" "gi").toExpr.text 0 ++ ".test(\"/\")".toList) =
        some ("[^/]\\/(\\n|\\d+)".toList, "gi.test(\"/\")".toList) := by
  have hread : Regex.ofText "/[^/]\\/(\n|\\d+)/gi" = .ok ⟨"[^/]\\/(\n|\\d+)", "gi"⟩ := rfl
  have hwhole : IsWhole "[^/]\\/(\n|\\d+)".toList := Script.steps_eq_start_iff.mp (by decide)
  exact ⟨hread, ((Regex.scanRegex?_regexText_iff hread 0 _).mpr ⟨⟨by decide, hwhole⟩, by decide⟩).1⟩

/-- A folder, with a backslash at its end. -/
def folder : String := "C:\\"

/-- It is accepted as a pattern, but the backslash takes the slash that is printed behind it. -/
theorem not_scanRegex?_folder :
    ¬∀ (text : String) (r : Regex) (level : Nat) (rest : List Char), Regex.ofText text = .ok r →
      scanRegex? (r.toExpr.text level ++ rest) =
          some (escapeInRegex false false r.pattern.toList, r.flags.toList ++ rest) ∧
        r.flags.toList.Nodup ∧ ¬('u' ∈ r.flags.toList ∧ 'v' ∈ r.flags.toList) := by
  intro h
  exact absurd (h folder ⟨folder, ""⟩ 0 [] rfl).1 (by decide)

end FlowSuite
