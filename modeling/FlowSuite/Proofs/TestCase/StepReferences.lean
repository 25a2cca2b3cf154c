import FlowSuite.Proofs.Condition.Spellings
import FlowSuite.Proofs.RuntimeExpr.RoundTrip
import FlowSuite.Proofs.TestCase.EarlyReads

/-!
# Outputs are found where they are written

A step keeps an output under a key, and later steps refer to it by `$steps.<stepId>.outputs.<name>`. The two meet on one
key (`stepReference_meets_output`), whatever way the reference takes:

* as a value of its own it is read by the grammar of runtime expressions and cut at its points
  (`lowerRuntime_stepReference`);
* inside a condition it is one token as far as it goes (`next_stepReference`), so it has the same text there.

Ids and names are words over letters, digits, `_` and `-`: these may stand in names of the grammar
(`isNameChar_of_isSegmentChar`), they have no points in them (`point_not_mem`), and they are the segments of a runtime
token (`runtimeTail_point`).
-/

namespace FlowSuite

open Lexer (isSegmentChar isLetter)
open Script (Expr)

/-- The expression by which a step refers to an output of another one. -/
def stepReference (stepId name : String) : String := "$steps." ++ stepId ++ ".outputs." ++ name

variable {stepId name : String}

theorem toList_stepReference (stepId name : String) :
    (stepReference stepId name).toList =
      "$steps.".toList ++ (stepId.toList ++ '.' :: ("outputs".toList ++ '.' :: name.toList)) := by
  simp [stepReference]

/-! ## The reference as a runtime expression -/

theorem isNameChar_of_isSegmentChar {c : Char} (h : isSegmentChar c) : RuntimeExpr.isNameChar c := by
  have hsegment : Lexer.RuntimePart.segment.continues c := h
  have hrange := Lexer.toNat_of_isOperandChar (Lexer.isOperandChar_of_continues hsegment)
  rw [RuntimeExpr.isNameChar, Bool.and_eq_true, decide_eq_true_eq, decide_eq_true_eq]
  exact hrange

theorem point_not_mem {word : String} (h : Word isSegmentChar word) : '.' ∉ word.toList := by
  intro hmem
  exact absurd (h.2 '.' hmem) (by decide)

/-- What stands before the first point of a text is cut off with that point. -/
theorem Access.cutAtPoint_append {cs : List Char} (h : '.' ∉ cs) (rest : List Char) :
    cutAtPoint (cs ++ '.' :: rest) = (cs, some rest) := by
  have hall : ∀ c ∈ cs, decide (c ≠ '.') = true := by
    intro c hc
    rw [decide_eq_true_eq]
    rintro rfl
    exact h hc
  have htake : (cs ++ '.' :: rest).takeWhile (fun c => decide (c ≠ '.')) = cs := by
    rw [List.takeWhile_append_of_pos hall]
    simp
  have hdrop : (cs ++ '.' :: rest).dropWhile (fun c => decide (c ≠ '.')) = '.' :: rest := by
    rw [List.dropWhile_append_of_pos hall]
    simp
  rw [cutAtPoint, htake, hdrop]

/-- The reference is read as an expression about steps. -/
theorem parse_stepReference (hid : Word isSegmentChar stepId) (hname : Word isSegmentChar name) :
    RuntimeExpr.parse (stepReference stepId name).toList =
      .ok (.named .steps (stepId ++ ".outputs." ++ name)) := by
  refine RuntimeExpr.parse_eq_ok_iff.mpr ⟨⟨⟨?_, ?_⟩, fun h => by cases h⟩, "$steps.".toList, ?_, rfl⟩
  · simp
  · intro c hc
    simp only [String.toList_append, List.mem_append] at hc
    rcases hc with (hc | hc) | hc
    · exact isNameChar_of_isSegmentChar (hid.2 c hc)
    · have hpoints : ∀ c ∈ ".outputs.".toList, RuntimeExpr.isNameChar c := List.all_eq_true.mp rfl
      exact hpoints c hc
    · exact isNameChar_of_isSegmentChar (hname.2 c hc)
  · simp [stepReference, RuntimeExpr.content]

/-- The reference is cut at its two points. -/
theorem ofText_stepReference (hid : Word isSegmentChar stepId) (hname : Word isSegmentChar name) :
    Access.ofText (stepReference stepId name) = .context stepId "outputs" name := by
  have hlist : (stepId ++ ".outputs." ++ name).toList =
      stepId.toList ++ '.' :: ("outputs".toList ++ '.' :: name.toList) := by simp
  have hfirst := Access.cutAtPoint_append (point_not_mem hid) ("outputs".toList ++ '.' :: name.toList)
  have hsecond := Access.cutAtPoint_append (show '.' ∉ "outputs".toList by decide) name.toList
  have hne : ¬(stepId.toList.isEmpty ∨ "outputs".toList.isEmpty ∨ name.toList.isEmpty) := by
    simp only [List.isEmpty_iff]
    rintro (h | h | h)
    · exact hid.1 h
    · cases h
    · exact hname.1 h
  simp only [Access.ofText, parse_stepReference hid hname, Access.ofExpr, Access.ofStepName, hlist, hfirst, hsecond,
    Option.getD_some, if_neg hne, String.ofList_toList]

/-- **The reference reads the context under the key of the output**, and that read is logged. -/
theorem lowerRuntime_stepReference (hid : Word isSegmentChar stepId) (hname : Word isSegmentChar name) (s : Scope) :
    lowerRuntime (stepReference stepId name) s =
      (.contextAt (outputKey stepId name), s.read (outputKey stepId name)) := by
  have hkey : stepId ++ "." ++ "outputs" ++ "." ++ name = outputKey stepId name := by
    rw [← String.toList_inj]
    simp [outputKey]
  simp only [lowerRuntime, ofText_stepReference hid hname, Access.lower, hkey]
  rfl

theorem lowerValue_stepReference (hid : Word isSegmentChar stepId) (hname : Word isSegmentChar name) (s : Scope) :
    (Json.str (stepReference stepId name)).lowerValue s =
      (.contextAt (outputKey stepId name), s.read (outputKey stepId name)) := by
  have htext : (Json.str (stepReference stepId name)).runtimeText? = some (stepReference stepId name) := by
    rw [Json.runtimeText?, toList_stepReference]
    rfl
  simp only [Json.lowerValue, htext, lowerRuntime_stepReference hid hname]

/-! ## The reference as a token -/

/-- Cannot go on with the reference: the text ends, or a character follows that is in no segment and begins none. -/
def EndsReference (after : List Char) : Prop :=
  ∀ c, after.head? = some c → ¬isSegmentChar c ∧ c ≠ '.' ∧ c ≠ '#'

theorem runtimeTail_eq_nil {after : List Char} (h : EndsReference after) : Lexer.runtimeTail .segment after = [] := by
  cases after with
  | nil => rfl
  | cons c cs =>
    obtain ⟨hsegment, hpoint, hhash⟩ := h c rfl
    have hcontinues : ¬Lexer.RuntimePart.segment.continues c := hsegment
    rw [Lexer.runtimeTail, if_neg hcontinues, if_neg hhash, if_neg (by simp [Lexer.RuntimePart.inPointer]),
      if_neg (fun hc => hpoint hc.1)]

/-- A word behind a point is one more segment. -/
theorem runtimeTail_point {part : Lexer.RuntimePart} (hpart : ¬part.continues '.') {word : List Char} (hne : word ≠ [])
    (h : ∀ c ∈ word, isSegmentChar c) (rest : List Char) :
    Lexer.runtimeTail part ('.' :: (word ++ rest)) = '.' :: (word ++ Lexer.runtimeTail .segment rest) := by
  obtain ⟨c, cs, rfl⟩ := List.exists_cons_of_ne_nil hne
  rw [List.cons_append, Lexer.runtimeTail_segment hpart (h c List.mem_cons_self), ← List.cons_append,
    Lexer.runtimeTail_append h]

/-- **The reference is one lexeme**, as far as it goes. -/
theorem next_stepReference (hid : Word isSegmentChar stepId) (hname : Word isSegmentChar name) {after : List Char}
    (h : EndsReference after) :
    Lexer.next ((stepReference stepId name).toList ++ after) = (.runtime, (stepReference stepId name).toList) := by
  have hsplit : (stepReference stepId name).toList ++ after =
      '$' :: 's' :: ("teps".toList ++ '.' :: (stepId.toList ++ '.' :: ("outputs".toList ++
        '.' :: (name.toList ++ after)))) := by
    simp [toList_stepReference]
  have htail : Lexer.runtimeTail .word ("teps".toList ++ '.' :: (stepId.toList ++ '.' :: ("outputs".toList ++
      '.' :: (name.toList ++ after)))) =
        "teps".toList ++ '.' :: (stepId.toList ++ '.' :: ("outputs".toList ++ '.' :: name.toList)) := by
    have hsteps : ∀ c ∈ "teps".toList, Lexer.RuntimePart.word.continues c := List.all_eq_true.mp rfl
    have houtputs : ∀ c ∈ "outputs".toList, isSegmentChar c := List.all_eq_true.mp rfl
    rw [Lexer.runtimeTail_append hsteps, runtimeTail_point (by decide) hid.1 hid.2,
      runtimeTail_point (by decide) (by decide) houtputs, runtimeTail_point (by decide) hname.1 hname.2,
      runtimeTail_eq_nil h, List.append_nil]
  rw [hsplit, Lexer.next_runtime (by decide), htail, toList_stepReference]
  rfl

/-- Where the reference begins a token, that token is the reference. -/
theorem exists_token_of_scanned (hid : Word isSegmentChar stepId) (hname : Word isSegmentChar name) {offset : Nat}
    {after : List Char} {ts : List Token} (hafter : EndsReference after)
    (h : Lexer.Scanned offset ((stepReference stepId name).toList ++ after) ts) :
    ∃ vs, ts = ⟨.runtime, (stepReference stepId name).toList,
      ⟨offset, offset + Text.byteCount (stepReference stepId name).toList⟩⟩ :: vs := by
  have hnext := next_stepReference hid hname hafter
  generalize htext : (stepReference stepId name).toList ++ after = text at h hnext
  cases h with
  | atEnd => simp [toList_stepReference] at htext
  | blank hb =>
    rw [toList_stepReference] at htext
    cases htext
    exact absurd hb (by decide)
  | token _ _ _ hnext' =>
    rw [hnext] at hnext'
    cases hnext'
    exact ⟨_, rfl⟩

/-! ## The output -/

/-- Every output is kept under its key, in order. -/
theorem map_key_lowerOutputs (stepId : String) (outputs : List (String × String)) (s : Scope) :
    (lowerOutputs stepId outputs s).1.map ContextWrite.key = outputs.map fun o => outputKey stepId o.1 := by
  induction outputs generalizing s with
  | nil => rfl
  | cons o outputs ih =>
    have hrest := ih (lowerRuntime o.2 s).2
    simp only [lowerOutputs, List.map_cons, hrest]

/-- The test of a step assigns every output to its key. -/
theorem exists_assign_outputKey (setting : Setting) (workflowId : String) (written : ContextStore) (step : Step)
    (e : Endpoint) (h : name ∈ step.outputs.map Prod.fst) :
    ∃ value, .assign (.contextAt (outputKey step.stepId name)) value ∈
      (setting.testOf workflowId written step e).body := by
  rw [StepTest.assigns_iff (bindParameters_shape step.parameters stepLocals _).1]
  obtain ⟨o, ho, rfl⟩ := List.mem_map.mp h
  have hkeys : (setting.testOf workflowId written step e).writes.map ContextWrite.key =
      step.outputs.map fun o => outputKey step.stepId o.1 := map_key_lowerOutputs _ _ _
  rw [hkeys]
  exact List.mem_map.mpr ⟨o, ho, rfl⟩

/-- **An output and the references to it meet on one key.** For an id and a name of letters, digits, `_` and `-`:

* the test of the step keeps the output in the context under its key;
* the reference, as a runtime expression and as a value, is lowered to the entry of the context under that very key,
  and logs the read of that key and nothing else;
* wherever in a text no token goes across the start of the reference, and what follows cannot extend it, there is a
  token for the reference, with exactly its text, and as a condition it is lowered to the same entry. -/
theorem stepReference_meets_output (hid : Word isSegmentChar stepId) (hname : Word isSegmentChar name) :
    (∀ (setting : Setting) (workflowId : String) (written : ContextStore) (step : Step) (e : Endpoint),
      step.stepId = stepId → name ∈ step.outputs.map Prod.fst →
        ∃ value, .assign (.contextAt (outputKey stepId name)) value ∈ (setting.testOf workflowId written step e).body) ∧
    (∀ s, lowerRuntime (stepReference stepId name) s =
      (.contextAt (outputKey stepId name), s.read (outputKey stepId name))) ∧
    (∀ s, (Json.str (stepReference stepId name)).lowerValue s =
      (.contextAt (outputKey stepId name), s.read (outputKey stepId name))) ∧
    ∀ before after : List Char, EndsReference after →
      (∀ t ∈ Lexer.tokenize (before ++ (stepReference stepId name).toList ++ after),
        ¬t.span.Covers (Text.byteCount before)) →
      ∃ us t vs, Lexer.tokenize (before ++ (stepReference stepId name).toList ++ after) = us ++ t :: vs ∧
        t.kind = .runtime ∧ t.text = stepReference stepId name ∧ t.span.start = Text.byteCount before ∧
        ∀ s, (Condition.runtime t.span t.text).lower s =
          (.contextAt (outputKey stepId name), s.read (outputKey stepId name)) := by
  refine ⟨?_, lowerRuntime_stepReference hid hname, lowerValue_stepReference hid hname, ?_⟩
  · rintro setting workflowId written step e rfl hmem
    exact exists_assign_outputKey setting workflowId written step e hmem
  · intro before after hafter hcut
    have hscanned := Lexer.scanned_tokenize (before ++ (stepReference stepId name).toList ++ after)
    rw [List.append_assoc] at hscanned hcut ⊢
    obtain ⟨us, ts, hts, hrest⟩ := hscanned.split (by simpa using hcut)
    obtain ⟨vs, rfl⟩ := exists_token_of_scanned hid hname hafter hrest
    have htext : String.ofList (stepReference stepId name).toList = stepReference stepId name := String.ofList_toList
    refine ⟨us, _, vs, hts, rfl, htext, Nat.zero_add _, fun s => ?_⟩
    rw [Token.text, htext]
    exact lowerRuntime_stepReference hid hname s

/-- A step whose id has a dash and which keeps an output with an underscore. -/
def robotStep : Step :=
  ⟨"create-robot", none, some "createRobot", [], none, [], [("robot_id", "$response.body#/id")]⟩

/-- The reference right behind a negation and right in front of a comparison. -/
theorem stepReference_meets_output_robotStep :
    (∀ (setting : Setting) (e : Endpoint), ∃ value,
      .assign (.contextAt "create-robot.outputs.robot_id") value ∈ (setting.testOf "build" .empty robotStep e).body) ∧
    (∀ s, lowerRuntime "$steps.create-robot.outputs.robot_id" s =
      (.contextAt "create-robot.outputs.robot_id", s.read "create-robot.outputs.robot_id")) ∧
    ∃ us t vs, Lexer.tokenize "!$steps.create-robot.outputs.robot_id>= 2".toList = us ++ t :: vs ∧
      t.kind = .runtime ∧ t.text = "$steps.create-robot.outputs.robot_id" ∧ t.span.start = 1 ∧
      ∀ s, (Condition.runtime t.span t.text).lower s =
        (.contextAt "create-robot.outputs.robot_id", s.read "create-robot.outputs.robot_id") := by
  have hid : Word isSegmentChar "create-robot" := ⟨by decide, List.all_eq_true.mp rfl⟩
  have hname : Word isSegmentChar "robot_id" := ⟨by decide, List.all_eq_true.mp rfl⟩
  obtain ⟨hwrite, hruntime, _, htoken⟩ := stepReference_meets_output hid hname
  have hends : EndsReference ">= 2".toList := by
    intro c hc
    cases hc
    decide
  have hcut : ∀ t ∈ Lexer.tokenize ("!".toList ++ "$steps.create-robot.outputs.robot_id".toList ++ ">= 2".toList),
      ¬t.span.Covers 1 := by
    decide
  exact ⟨fun setting e => hwrite setting "build" .empty robotStep e rfl (by decide), hruntime,
    htoken "!".toList ">= 2".toList hends hcut⟩

end FlowSuite
