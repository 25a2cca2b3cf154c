import FlowSuite.Proofs.Condition.LongestMatch
import FlowSuite.Proofs.Condition.Reading
import FlowSuite.Proofs.Condition.Relocation

/-!
# Every part of a condition reads alone as itself

Each condition inside another one, conjuncts included (`Condition.Contains.conjunct`), has a part of its tokens
(`Placed.exists_of_contains`), and its span goes from the first of these tokens to the last (`Placed.spans`), because
tokens stand one behind the other (`Ordered`). A text that is cut off in front of such a part and behind it still has
the tokens of that part (`Lexer.Scanned.slice`), so that part of the text reads as the condition inside, moved to the
start (`Condition.parse_slice`).
-/

namespace FlowSuite

/-- Lies in another range. -/
def Span.Within (s t : Span) : Prop := t.start ≤ s.start ∧ s.stop ≤ t.stop

/-! ## Tokens one behind the other -/

/-- The tokens stand one behind the other. -/
structure Ordered (ts : List Token) : Prop where
  forward : ∀ t ∈ ts, t.span.start ≤ t.span.stop
  apart : ts.Pairwise fun t u => t.span.stop ≤ u.span.start

/-- The range goes from the first token to the last. -/
def Spans (ts : List Token) (s : Span) : Prop :=
  ∃ first ∈ ts.head?, ∃ last ∈ ts.getLast?, s = ⟨first.span.start, last.span.stop⟩

variable {us ts vs ws : List Token} {t : Token}

theorem Ordered.part (h : Ordered ts) (hus : us <:+: ts) : Ordered us :=
  ⟨fun t ht => h.forward t (hus.subset ht), h.apart.sublist hus.sublist⟩

/-- No token begins before the first. -/
theorem Ordered.start_le (h : Ordered ts) {first : Token} (hfirst : first ∈ ts.head?) (ht : t ∈ ts) :
    first.span.start ≤ t.span.start := by
  obtain ⟨us, rfl⟩ := List.head?_eq_some_iff.mp hfirst
  rcases List.mem_cons.mp ht with rfl | ht
  · exact Nat.le_refl _
  · exact Nat.le_trans (h.forward first List.mem_cons_self) ((List.pairwise_cons.mp h.apart).1 t ht)

/-- No token ends behind the last. -/
theorem Ordered.le_stop (h : Ordered ts) {last : Token} (hlast : last ∈ ts.getLast?) (ht : t ∈ ts) :
    t.span.stop ≤ last.span.stop := by
  obtain ⟨us, rfl⟩ := List.getLast?_eq_some_iff.mp hlast
  rcases List.mem_append.mp ht with ht | ht
  · exact Nat.le_trans ((List.pairwise_append.mp h.apart).2.2 t ht last (by simp)) (h.forward last (by simp))
  · cases List.mem_singleton.mp ht
    exact Nat.le_refl _

theorem Spans.singleton (t : Token) : Spans [t] t.span := ⟨t, rfl, t, rfl, rfl⟩

/-- A part of the tokens spans a part of the range. -/
theorem Spans.within {r s : Span} (hr : Spans us r) (hs : Spans ts s) (h : Ordered ts) (hus : us <:+: ts) :
    r.Within s := by
  obtain ⟨first, hfirst, last, hlast, rfl⟩ := hr
  obtain ⟨first', hfirst', last', hlast', rfl⟩ := hs
  exact ⟨h.start_le hfirst' (hus.subset (List.mem_of_head? hfirst)),
    h.le_stop hlast' (hus.subset (List.mem_of_getLast? hlast))⟩

/-- The range of a first and a last part, merged, is the range of all. -/
theorem Spans.merge {r s : Span} (hr : Spans us r) (hs : Spans vs s) (h : Ordered (us ++ ts ++ vs)) :
    Spans (us ++ ts ++ vs) (r.merge s) := by
  obtain ⟨first, hfirst, last, hlast, rfl⟩ := hr
  obtain ⟨first', hfirst', last', hlast', rfl⟩ := hs
  have hhead : first ∈ (us ++ ts ++ vs).head? := by
    obtain ⟨us, rfl⟩ := List.head?_eq_some_iff.mp hfirst
    rfl
  have hend : last' ∈ (us ++ ts ++ vs).getLast? := by
    obtain ⟨vs, rfl⟩ := List.getLast?_eq_some_iff.mp hlast'
    exact List.getLast?_eq_some_iff.mpr ⟨us ++ ts ++ vs, by simp⟩
  have hstart := h.start_le hhead (List.mem_append_right _ (List.mem_of_head? hfirst'))
  have hstop := h.le_stop hend (List.mem_append_left _ (List.mem_append_left _ (List.mem_of_getLast? hlast)))
  refine ⟨first, hhead, last', hend, ?_⟩
  rw [Span.merge, Nat.min_eq_left hstart, Nat.max_eq_right hstop]

/-- **A condition goes from its first token to its last.** -/
theorem Placed.spans {text : String} {n : Nat} {layer : Layer} {c : Condition} (h : Placed text n layer ts c)
    (hts : Ordered ts) : Spans ts c.span := by
  induction h with
  | single _ _ ih | unary _ ih | operand _ ih => exact ih hts
  | @chain n layer inner us t vs f a b c _ _ _ _ hc iha ihb =>
    rw [List.append_cons] at hts ⊢
    rw [(Parser.combine_eq_ok hc).1]
    exact (iha (hts.part ⟨[], [t] ++ vs, by simp⟩)).merge (ihb (hts.part ⟨us ++ [t], [], by simp⟩)) hts
  | @not n t ts c _ _ ih => exact @Spans.merge [t] [] _ _ _ (.singleton t) (ih (hts.part ⟨[t], [], by simp⟩)) hts
  | @index n us opened vs closed a b _ _ _ _ iha _ =>
    have hsplit : us ++ opened :: (vs ++ [closed]) = us ++ (opened :: vs) ++ [closed] := by simp
    rw [hsplit] at hts ⊢
    exact (iha (hts.part ⟨[], opened :: vs ++ [closed], by simp⟩)).merge (.singleton closed) hts
  | @property n us dot name a _ _ _ ih =>
    have hsplit : us ++ [dot, name] = us ++ [dot] ++ [name] := by simp
    rw [hsplit] at hts ⊢
    exact (ih (hts.part ⟨[], [dot] ++ [name], by simp⟩)).merge (.singleton name) hts
  | @group n opened ts closed c _ _ _ _ =>
    rw [Condition.span_withSpan]
    exact (Spans.singleton opened).merge (.singleton closed) hts
  | literal => exact .singleton _
  | runtime => exact .singleton _

/-! ## Cutting a text at tokens -/

namespace Lexer

open Text (byteCount)

/-- The tokens of a text stand one behind the other. -/
theorem Scanned.ordered {offset : Nat} {cs : List Char} (h : Scanned offset cs ts) :
    Ordered ts ∧ ∀ t ∈ ts, offset ≤ t.span.start := by
  induction h with
  | atEnd =>
    refine ⟨⟨?_, List.pairwise_singleton _ _⟩, List.forall_mem_singleton.mpr (Nat.le_refl _)⟩
    exact List.forall_mem_singleton.mpr (Nat.le_refl _)
  | blank _ _ ih => exact ⟨ih.1, fun t ht => Nat.le_trans (Nat.le_add_right _ _) (ih.2 t ht)⟩
  | @token offset _ _ _ _ _ ts _ _ _ _ _ ih =>
    obtain ⟨⟨hforward, hapart⟩, hbehind⟩ := ih
    have hstart : ∀ t ∈ ts, offset ≤ t.span.start := fun t ht => Nat.le_trans (Nat.le_add_right _ _) (hbehind t ht)
    refine ⟨⟨?_, List.pairwise_cons.mpr ⟨hbehind, hapart⟩⟩, List.forall_mem_cons.mpr ⟨Nat.le_refl _, hstart⟩⟩
    exact List.forall_mem_cons.mpr ⟨Nat.le_add_right _ _, hforward⟩

/-- Where one of its tokens begins, a text has this token and those behind it. -/
theorem Scanned.drop (hus : ∀ u ∈ us, u.kind ≠ .endOfText) (ht : t.kind ≠ .endOfText) :
    ∀ {offset : Nat} {cs : List Char}, Scanned offset cs (us ++ t :: ts) →
      ∃ before rest, cs = before ++ rest ∧ t.span.start = offset + byteCount before ∧
        Scanned (offset + byteCount before) rest (t :: ts) := by
  induction us with
  | nil =>
    intro offset cs h
    obtain ⟨blanks, rest, rfl, _, hhead, hnext, hspan, hrest⟩ := Scanned.of_cons h ht
    refine ⟨blanks, t.lexeme ++ rest, rfl, congrArg Span.start hspan, ?_⟩
    exact @Scanned.cons _ [] rest t ts (by simp) hhead hnext hspan hrest
  | cons u us ih =>
    intro offset cs h
    obtain ⟨hu, hus⟩ := List.forall_mem_cons.mp hus
    obtain ⟨blanks, rest, rfl, _, _, _, _, hrest⟩ := Scanned.of_cons h hu
    obtain ⟨before, rest, rfl, hstart, hts⟩ := ih hus hrest
    refine ⟨blanks ++ (u.lexeme ++ before), rest, by simp, ?_⟩
    simpa only [Text.byteCount_append, Nat.add_assoc] using And.intro hstart hts

/-- A text that is cut off behind one of its valid tokens has the tokens up to this one. -/
theorem Scanned.take (hvs : ∀ t ∈ vs, t.kind ≠ .invalid ∧ t.kind ≠ .endOfText) :
    ∀ {offset : Nat} {cs : List Char}, Scanned offset cs (vs ++ ts) →
      ∃ inside after, cs = inside ++ after ∧ (∀ t ∈ vs.getLast?, t.span.stop = offset + byteCount inside) ∧
        Scanned offset inside (vs ++ [.atEnd (offset + byteCount inside)]) := by
  induction vs with
  | nil => exact fun _ => ⟨[], _, rfl, by simp, .atEnd⟩
  | cons v vs ih =>
    intro offset cs h
    obtain ⟨⟨hvalid, hv⟩, hvs⟩ := List.forall_mem_cons.mp hvs
    obtain ⟨blanks, rest, rfl, hblanks, hhead, hnext, hspan, hrest⟩ := Scanned.of_cons h hv
    obtain ⟨inside, after, rfl, hlast, hinside⟩ : ∃ inside after, rest = inside ++ after ∧
        (∀ t ∈ (v :: vs).getLast?, t.span.stop = offset + byteCount blanks + byteCount v.lexeme + byteCount inside) ∧
        Scanned (offset + byteCount blanks + byteCount v.lexeme) inside
          (vs ++ [.atEnd (offset + byteCount blanks + byteCount v.lexeme + byteCount inside)]) := by
      cases vs with
      | nil => exact ⟨[], rest, rfl, by simp [hspan], .atEnd⟩
      | cons w ws => simpa only [List.getLast?_cons_cons] using ih hvs hrest
    have hcut : next (v.lexeme ++ inside) = (v.kind, v.lexeme) :=
      next_cut hvalid hnext (List.prefix_append _ _) ⟨after, by simp⟩
    have hbytes : offset + byteCount (blanks ++ (v.lexeme ++ inside)) =
        offset + byteCount blanks + byteCount v.lexeme + byteCount inside := by
      simp only [Text.byteCount_append, Nat.add_assoc]
    refine ⟨blanks ++ (v.lexeme ++ inside), after, by simp, ?_⟩
    rw [hbytes]
    exact ⟨hlast, .cons hblanks hhead hcut hspan hinside⟩

/-- **A part of the tokens is found alone** in the part of the text that it spans. -/
theorem Scanned.slice (hus : ∀ t ∈ us, t.kind ≠ .endOfText)
    (hvs : ∀ t ∈ vs, t.kind ≠ .invalid ∧ t.kind ≠ .endOfText) {s : Span} (hs : Spans vs s) {offset : Nat}
    {cs : List Char} (h : Scanned offset cs (us ++ (vs ++ ws))) :
    ∃ before inside after, cs = before ++ inside ++ after ∧ inside ≠ [] ∧
      s = ⟨offset + byteCount before, offset + byteCount before + byteCount inside⟩ ∧
      Scanned s.start inside (vs ++ [.atEnd s.stop]) := by
  obtain ⟨first, hfirst, last, hlast, rfl⟩ := hs
  obtain ⟨vs', rfl⟩ := List.head?_eq_some_iff.mp hfirst
  have hkind := (hvs first List.mem_cons_self).2
  obtain ⟨before, rest, rfl, hstart, hrest⟩ := Scanned.drop hus hkind h
  obtain ⟨inside, after, rfl, hstop, hinside⟩ := Scanned.take hvs hrest
  have hstop := hstop last hlast
  refine ⟨before, inside, after, (List.append_assoc _ _ _).symm, ?_, ?_, ?_⟩
  · rintro rfl
    obtain ⟨_, _, hnil, _, ⟨c, _, hhead⟩, _⟩ := Scanned.of_cons hinside hkind
    have hlexeme := (List.append_eq_nil_iff.mp (List.append_eq_nil_iff.mp hnil.symm).2).1
    rw [hlexeme] at hhead
    cases hhead
  · rw [hstart, hstop]
  · rw [hstart, hstop]
    exact hinside

/-- Tokens that are found along a text are found along it at a smaller offset, moved to the left. -/
theorem Scanned.shift {place k offset : Nat} {cs : List Char} (h : Scanned place cs ts) (hat : place = k + offset) :
    Scanned offset cs (ts.map (·.relocate (· - k))) := by
  induction h generalizing offset with
  | atEnd =>
    subst hat
    have hspan : Token.relocate (· - k) (.atEnd (k + offset)) = .atEnd offset := by
      simp [Token.relocate, Token.atEnd, Span.map, Span.point]
    rw [List.map_singleton, hspan]
    exact .atEnd
  | blank hb _ ih => exact .blank hb (ih (by rw [hat, Nat.add_assoc]))
  | @token _ c text lexeme rest kind ts hc hhead htext hnext _ ih =>
    subst hat
    have hspan : Token.relocate (· - k) ⟨kind, lexeme, ⟨k + offset, k + offset + byteCount lexeme⟩⟩ =
        ⟨kind, lexeme, ⟨offset, offset + byteCount lexeme⟩⟩ := by
      simp [Token.relocate, Span.map, Nat.add_assoc]
    rw [List.map_cons, hspan]
    exact .token hc hhead htext hnext (ih (by rw [Nat.add_assoc]))

end Lexer

/-! ## Conditions -/

theorem Text.slice_byteCount (before inside after : List Char) :
    slice ⟨byteCount before, byteCount before + byteCount inside⟩ (before ++ inside ++ after) = inside := by
  rw [slice, List.append_assoc, cutAt_byteCount, Nat.add_sub_cancel_left, cutAt_byteCount]

namespace Condition

open Text (byteCount)

/-- **Every condition inside another reads alone as itself.** Its span lies in that of the condition around it, is a
part of the text that is not empty and begins and ends between characters, and that part is read as the same condition,
with all spans moved to the start and the part as the text that comparisons show. -/
theorem parse_slice {text : String} {t c : Condition} (h : parse text = .ok t) (hc : t.Contains c) :
    (∀ d ∈ c.children, d.span.Within c.span) ∧
      ∃ before inside after, text.toList = before ++ inside ++ after ∧ inside ≠ [] ∧
        c.span = ⟨byteCount before, byteCount before + byteCount inside⟩ ∧
        Text.slice c.span text.toList = inside ∧
        parse (String.ofList inside) = .ok (c.relocate (· - c.span.start) (String.ofList inside)) := by
  have hplaced := parse_iff_placed.mp h
  obtain ⟨e, heq, _⟩ := tokenize_eq text
  have hscanned := Lexer.scanned_tokenize text.toList
  have hordered : Ordered (tokens text) := hscanned.ordered.1.part ⟨[], [e], by rw [heq]; simp⟩
  obtain ⟨vs, hvs, hpart⟩ := hplaced.exists_of_contains hc
  have hspans := hpart.spans (hordered.part hvs)
  refine ⟨fun d hd => ?_, ?_⟩
  · obtain ⟨ws, hws, hchild⟩ := hpart.exists_of_mem_children hd
    have hvsOrdered := hordered.part hvs
    exact (hchild.spans (hvsOrdered.part hws)).within hspans hvsOrdered hws
  · obtain ⟨us, ws, hsplit⟩ := hvs
    have hus : ∀ u ∈ us, u.kind ≠ .endOfText := fun u hu => (hplaced.kind_ne u (by rw [← hsplit]; simp [hu])).2
    rw [heq, ← hsplit, List.append_assoc, List.append_assoc] at hscanned
    obtain ⟨before, inside, after, htext, hne, hspan, hinside⟩ := hscanned.slice hus hpart.kind_ne hspans
    rw [Nat.zero_add] at hspan
    refine ⟨before, inside, after, htext, hne, hspan, ?_, ?_⟩
    · rw [htext, hspan, Text.slice_byteCount]
    · have hmoved := hinside.shift (Nat.add_zero c.span.start).symm
      have hread := ofTokens_relocate (f := (· - c.span.start)) (fun _ _ hle => Nat.sub_le_sub_right hle _) text
        (String.ofList inside) (List.append_ne_nil_of_right_ne_nil vs (List.cons_ne_nil (Token.atEnd c.span.stop) []))
      rw [ofTokens_of_placed hpart rfl] at hread
      rw [parse, String.toList_ofList, Lexer.tokenize, hmoved.eq_scan, hread]
      rfl

/-- A comparison in parentheses, read behind a character of two bytes. -/
def secondConjunct : Condition :=
  .comparison ⟨13, 23⟩ .lt (.index ⟨14, 18⟩ (.literal ⟨14, 15⟩ (.string "b")) (.literal ⟨16, 17⟩ (.int 0)))
    (.literal ⟨21, 22⟩ (.int 2)) "'é' == a && (b[0] < 2)"

/-- It is read alone with its parentheses. -/
theorem parse_slice_secondConjunct : (∀ d ∈ secondConjunct.children, d.span.Within ⟨13, 23⟩) ∧
    parse "(b[0] < 2)" = .ok (secondConjunct.relocate (· - 13) "(b[0] < 2)") := by
  have hread : parse "'é' == a && (b[0] < 2)" = .ok (.logical ⟨0, 23⟩ .and
      (.comparison ⟨0, 9⟩ .eq (.literal ⟨0, 4⟩ (.string "é")) (.literal ⟨8, 9⟩ (.string "a"))
        "'é' == a && (b[0] < 2)") secondConjunct) := rfl
  obtain ⟨hwithin, _, inside, _, _, _, _, hslice, hpart⟩ :=
    parse_slice hread (Contains.self.conjunct secondConjunct (List.mem_cons_of_mem _ (List.mem_singleton_self _)))
  have hinside : inside = "(b[0] < 2)".toList := hslice.symm
  subst hinside
  exact ⟨hwithin, hpart⟩

end Condition

end FlowSuite
