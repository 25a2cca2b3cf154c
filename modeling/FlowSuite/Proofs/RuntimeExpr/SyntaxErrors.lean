import FlowSuite.Proofs.RuntimeExpr.RoundTrip
import FlowSuite.Proofs.RuntimeExpr.Wishes

/-!
# Syntax errors of runtime expressions

A text that is no runtime expression is refused with a report on the furthest place where something was wanted. The
report is sound (`SyntaxError.SoundAt`): it names the place right, and what it expects there is missing and would have
led on to an expression (`parse_error_sound`).

What can be read behind the first keyword of a text is viable (`viable_of_behind`), also behind the keyword of
components: a name that makes it the keyword of parameters is still the beginning of an expression. So the record of
wishes stays sound over all keywords that are tried (`firstRoot_outcome`).
-/

namespace FlowSuite

/-! ## Lines and columns -/

/-- The lines in front of a place are its line feeds, and its column is what stands behind the last of them. -/
theorem Location.countLines_eq (cs : List Char) :
    countLines cs = (cs.count '\n', (cs.reverse.takeWhile (· ≠ '\n')).length) := by
  induction cs with
  | nil => rfl
  | cons c cs ih =>
    rw [countLines, ih, List.reverse_cons, List.takeWhile_append]
    by_cases hmem : '\n' ∈ cs
    · -- the last line feed stands further behind
      have hcount : cs.count '\n' ≠ 0 := by simpa [List.count_eq_zero] using hmem
      have hpart : (cs.reverse.takeWhile (· ≠ '\n')).length ≠ cs.reverse.length := by
        intro hlength
        have hwhole := (List.takeWhile_prefix _).eq_of_length hlength
        have hfeed := List.takeWhile_eq_self_iff.mp hwhole '\n' (List.mem_reverse.mpr hmem)
        simp at hfeed
      rw [if_neg hpart, List.count_cons]
      simp only [hcount, false_and, if_false]
      by_cases hc : c = '\n' <;> simp [hc]
    · have hcount : cs.count '\n' = 0 := List.count_eq_zero.mpr hmem
      have hwhole : cs.reverse.takeWhile (· ≠ '\n') = cs.reverse := by
        refine List.takeWhile_eq_self_iff.mpr fun d hd => decide_eq_true ?_
        rintro rfl
        exact hmem (List.mem_reverse.mp hd)
      rw [hwhole, if_pos rfl, hcount]
      by_cases hc : c = '\n' <;> simp [hc, hcount]

theorem BeginsWith.append {keyword cs : List Char} (h : BeginsWith keyword cs) (ds : List Char) :
    BeginsWith keyword (cs ++ ds) := by
  unfold BeginsWith
  rw [List.map_append]
  exact h.trans (List.prefix_append _ _)

namespace RuntimeExpr

open Reader

/-! ## What is viable behind a keyword -/

/-- What an expression can have behind its first keyword is viable. -/
theorem viable_of_behind {e : RuntimeExpr} {cs : List Char}
    (h : Behind e.root.toList (fun rest d => d.Tail rest) cs e) : Viable cs := by
  by_cases hparameters : e.root = Namespace.components.keyword ∧
      BeginsWith Namespace.componentParameters.keyword.toList cs
  · obtain ⟨hroot, hb⟩ := hparameters
    obtain ⟨name, rfl⟩ := eq_named_of_root hroot
    obtain ⟨as, rest, rfl, has, rfl, hword⟩ := h
    obtain ⟨bs, tail, hcs, hbs⟩ := beginsWith_iff.mp hb
    -- the name reaches over the keyword of parameters, and what is left of it is made a name by one more character
    have htail : tail <:+ name.toList := by
      have hlengths := congrArg List.length hcs
      have hshorter : (named .components name).root.toList.length <
          Namespace.componentParameters.keyword.toList.length := by
        show Namespace.components.keyword.toList.length < _
        decide
      rw [List.length_append, List.length_append, has.length_eq, hbs.length_eq] at hlengths
      exact List.suffix_of_suffix_length_le ⟨bs, rfl⟩ ⟨as, hcs⟩ (by omega)
    refine ⟨['x'], named .componentParameters (String.ofList (tail ++ ['x'])), ?_⟩
    refine parse_eq_ok_iff.mpr ⟨⟨?_, nofun⟩, bs, ?_, hbs⟩
    · refine ⟨by simp, fun c hc => ?_⟩
      rw [String.toList_ofList, List.mem_append, List.mem_singleton] at hc
      rcases hc with hc | rfl
      · exact hword.2 c (htail.subset hc)
      · decide
    · rw [hcs, List.append_assoc]
      simp [content]
  · have hspells := (behind_root_iff e cs).mp ⟨fun hroot hb => hparameters ⟨hroot, hb⟩, h⟩
    exact ⟨[], e, by rw [List.append_nil, parse_eq_ok_iff.mpr hspells]⟩

/-- A reader of the rest of the expressions with a keyword reports what it wanted, and there are such expressions. -/
def ReportsTail (root : String × Reader RuntimeExpr) : Prop :=
  (root.2.Reports fun cs e => e.root = root.1 ∧ e.Tail cs) ∧ ∃ cs, ∃ e : RuntimeExpr, e.root = root.1 ∧ e.Tail cs

theorem reportsTail_done {d : RuntimeExpr} (hd : d.Tail []) : ReportsTail (d.root, done d) := by
  refine ⟨fun text pre c w hc _ hw => ?_, [], d, rfl, hd⟩
  rw [← List.append_nil pre] at hc
  exact .read hc ⟨rfl, hd⟩ hw

theorem reportsTail_part (m : Message) : ReportsTail (m.keyword, part.map (ofMessage m)) :=
  ⟨(part_reports.map _).congr (tail_ofMessage_iff m), _, ofMessage m (.body none), rfl, trivial, _, rfl, rfl⟩

theorem reportsTail_name (s : Namespace) : ReportsTail (s.keyword, name.map (named s)) :=
  ⟨(name_reports.map _).congr (tail_named_iff s), _, named s (String.singleton 'a'), rfl, rfl,
    word_singleton (by decide)⟩

theorem roots_reportsTail : ∀ root ∈ roots, ReportsTail root := by
  simp only [roots, List.forall_mem_cons]
  exact ⟨reportsTail_done rfl, reportsTail_done rfl, reportsTail_done rfl,
    reportsTail_part .request, reportsTail_part .response, reportsTail_part .message,
    reportsTail_name .inputs, reportsTail_name .outputs, reportsTail_name .steps, reportsTail_name .workflows,
    reportsTail_name .sourceDescriptions, reportsTail_name .componentParameters, reportsTail_name .components, by simp⟩

/-- **The record stays sound over all keywords that are tried**, and what is read is what the first keyword of the text
makes of it. -/
theorem firstRoot_outcome {text : List Char} : ∀ {rs : List (String × Reader RuntimeExpr)} {w : Furthest},
    (∀ root ∈ rs, ReportsTail root) → w.Sound text → (rs = [] → w.wanted ≠ []) →
      Outcome text [] (fun cs e => (rs.map Prod.fst).find? (fun k => BeginsWith k.toList text) = some e.root ∧
        Behind e.root.toList (fun rest d => d.Tail rest) cs e) (firstRoot rs ⟨text, 0⟩ w)
  | [], w, _, hw, hne => .failed hw (hne rfl)
  | (keyword, follow) :: more, w, h, hw, _ => by
    obtain ⟨hfollow, htail⟩ := h _ List.mem_cons_self
    have hc : Cursor.At text [] ⟨text, 0⟩ := ⟨rfl, rfl⟩
    have hviable : ∀ (cs : List Char) (e : RuntimeExpr),
        Behind keyword.toList (fun cs e => e.root = keyword ∧ e.Tail cs) cs e → Viable ([] ++ cs) := by
      rintro cs e ⟨as, rest, heq, has, rfl, ht⟩
      exact viable_of_behind ⟨as, rest, heq, has, ht⟩
    by_cases hb : BeginsWith keyword.toList text
    · have hfirst : firstRoot ((keyword, follow) :: more) ⟨text, 0⟩ w =
          ((literal keyword true).andThen follow) ⟨text, 0⟩ w := by
        obtain ⟨as, rest, heq, has⟩ := beginsWith_iff.mp hb
        simp only [firstRoot, andThen, literal, afterLiteral?_eq_some_iff.mpr ⟨as, heq, has⟩]
      rw [hfirst]
      refine (hfollow.behind keyword htail hc hviable hw).imp ?_
      rintro cs e ⟨as, rest, heq, has, hroot, ht⟩
      rw [List.map_cons, List.find?_cons, decide_eq_true hb, hroot]
      exact ⟨rfl, as, rest, heq, has, ht⟩
    · have hfirst : firstRoot ((keyword, follow) :: more) ⟨text, 0⟩ w =
          firstRoot more ⟨text, 0⟩ (w.want 0 (.literal keyword true)) := by
        simp only [firstRoot, literal, afterLiteral?_eq_none_iff.mpr hb]
      obtain ⟨cs, e, he⟩ := htail
      have hwhole : Viable ([] ++ keyword.toList ++ cs) := hviable _ e ⟨keyword.toList, cs, rfl, rfl, he⟩
      obtain ⟨hsound, hne⟩ := hw.want (x := .literal keyword true) hc hwhole.of_append hb
      rw [hfirst]
      refine (firstRoot_outcome (fun root hroot => h root (List.mem_cons_of_mem _ hroot)) hsound fun _ => hne).imp ?_
      intro cs e he
      rwa [List.map_cons, List.find?_cons, decide_eq_false hb]

/-- Reading starts with a sound record. -/
theorem sound_none (text : List Char) : Furthest.none.Sound text := by
  refine ⟨[], text, rfl, rfl, ⟨"$url".toList, url, rfl⟩, List.nodup_nil, ?_, ?_, fun _ => rfl⟩
  · simp [Furthest.none]
  · simp [Furthest.none]

/-! ## Reports -/

/-- A text is refused with the report on a sound record of wishes. -/
theorem exists_sound_of_parse {text : List Char} {err : SyntaxError} (h : parse text = .error err) :
    ∃ w : Furthest, err = .ofFurthest text w ∧ w.Sound text ∧ w.wanted ≠ [] := by
  have hout := firstRoot_outcome roots_reportsTail (sound_none text) (by simp [roots])
  unfold parse at h
  generalize firstRoot roots ⟨text, 0⟩ Furthest.none = out at hout h
  cases hout with
  | failed hw hne =>
    cases h
    exact ⟨_, rfl, hw, hne⟩
  | @read mid e c w hc hread hw =>
    obtain ⟨hfind, hbehind⟩ := hread
    have hfirst := (find?_rootKeywords_iff (root_mem_rootKeywords e)
      (by simpa using List.find?_some hfind)).mp hfind
    have hmid : parse mid = .ok e := by
      refine parse_eq_ok_iff.mpr ((behind_root_iff e mid).mp ⟨fun hroot hb => hfirst hroot ?_, hbehind⟩)
      rw [hc.text_eq]
      exact hb.append c.rest
    simp only at h
    split at h
    · cases h
    · next hrest =>
      cases h
      have hunmet : ¬Expectation.endOfInput.Met c.rest := fun hnil => hrest (List.isEmpty_iff.mpr hnil)
      obtain ⟨hsound, hne⟩ := hw.want (x := .endOfInput) hc ⟨e, hmid⟩ hunmet
      exact ⟨_, rfl, hsound, hne⟩

end RuntimeExpr

open RuntimeExpr

/-- A report names a place in a text, and what stands there: its offset, line and column, and the next character with
its bytes. Of all that it expects nothing stands there, and with any of it the text in front of the place would be the
beginning of an expression. -/
structure SyntaxError.SoundAt (pre rest : List Char) (err : SyntaxError) : Prop where
  location_eq : err.location =
    ⟨Text.byteCount pre, pre.count '\n' + 1, (pre.reverse.takeWhile (· ≠ '\n')).length + 1⟩
  found_eq : err.found = rest.head?
  span_eq : err.span = ⟨Text.byteCount pre, Text.byteCount pre + Text.byteCount (rest.take 1)⟩
  expected_ne_nil : err.expected ≠ []
  expected_nodup : err.expected.Nodup
  expected_sorted : err.expected.Pairwise fun a b => a.text ≤ b.text
  viable : Viable pre
  leads : ∀ x ∈ err.expected, x.Leads pre
  unmet : ∀ x ∈ err.expected, ¬x.Met rest

theorem SyntaxError.ofFurthest_soundAt {pre rest : List Char} {w : Furthest} (hw : w.Between pre rest)
    (hne : w.wanted ≠ []) : (ofFurthest (pre ++ rest) w).SoundAt pre rest := by
  have hcut : Text.cutAt w.offset (pre ++ rest) = (pre, rest) := by rw [hw.offset_eq, Text.cutAt_byteCount]
  have hmem : ∀ {x}, x ∈ (ofFurthest (pre ++ rest) w).expected → x ∈ w.wanted := List.mem_mergeSort.mp
  have hperm : (ofFurthest (pre ++ rest) w).expected.Perm w.wanted := List.mergeSort_perm _ _
  constructor
  case location_eq =>
    simp only [ofFurthest, Location.ofOffset, hcut, Location.countLines_eq]
    rw [hw.offset_eq]
  case found_eq => simp only [ofFurthest, hcut]
  case span_eq =>
    simp only [ofFurthest, hcut]
    cases rest <;> simp [hw.offset_eq, Span.point]
  case expected_ne_nil => exact fun hnil => hne (List.perm_nil.mp (hnil ▸ hperm.symm))
  case expected_nodup => exact hperm.nodup_iff.mpr hw.nodup
  case expected_sorted =>
    have htrans : ∀ a b c : Expectation, decide (a.text ≤ b.text) → decide (b.text ≤ c.text) →
        decide (a.text ≤ c.text) := fun a b c hab hbc => by
      simp only [decide_eq_true_eq] at hab hbc ⊢
      exact String.le_trans hab hbc
    have htotal : ∀ a b : Expectation, decide (a.text ≤ b.text) || decide (b.text ≤ a.text) := fun a b => by
      simpa using String.le_total a.text b.text
    exact (List.pairwise_mergeSort htrans htotal w.wanted).imp fun h => by simpa using h
  case viable => exact hw.viable
  case leads => exact fun x hx => hw.leads x (hmem hx)
  case unmet => exact fun x hx => hw.unmet x (hmem hx)

namespace RuntimeExpr

/-- **The report on a text that is no expression is sound.** -/
theorem parse_error_sound {text : List Char} {err : SyntaxError} (h : parse text = .error err) :
    ∃ pre rest, text = pre ++ rest ∧ err.SoundAt pre rest := by
  obtain ⟨w, rfl, ⟨pre, rest, rfl, hw⟩, hne⟩ := exists_sound_of_parse h
  exact ⟨pre, rest, rfl, SyntaxError.ofFurthest_soundAt hw hne⟩

/-- A key with an escape that there is not. -/
def badEscape : List Char := "$response.body#/a~2".toList

/-- What is wrong with it. -/
def badEscapeError : SyntaxError := ⟨[.charClass "[01]"], some '2', ⟨18, 1, 19⟩, ⟨18, 19⟩⟩

theorem parse_error_sound_badEscape :
    parse badEscape = .error badEscapeError ∧
      ∃ pre rest, badEscape = pre ++ rest ∧ badEscapeError.SoundAt pre rest := by
  have hfirst : firstRoot roots ⟨badEscape, 0⟩ Furthest.none =
      (some (.ofMessage .response (.body (some ⟨["a"]⟩)), ⟨['~', '2'], 17⟩), ⟨18, [.charClass "[01]"]⟩) := by rfl
  have hread : parse badEscape = .error badEscapeError := by
    rw [parse, hfirst]
    show Except.error (SyntaxError.ofFurthest badEscape ⟨18, [.charClass "[01]"]⟩) = _
    rw [SyntaxError.ofFurthest, List.mergeSort_singleton]
    rfl
  exact ⟨hread, parse_error_sound hread⟩

end RuntimeExpr

end FlowSuite
