import FlowSuite.Proofs.Condition.Slices

/-!
# Places between characters

A range of bytes can be cut out of a text only if it begins and ends between characters (`Text.IsBoundary`), and what is
shown of it counts characters and not bytes. Both come out right for the range of any part of a text
(`Span.canBeShown_of_parts`), and the range from one boundary to a later one is that of a part
(`Span.exists_parts`).

Tokens begin and end between characters (`Lexer.Scanned.cases_located`), so a range from one token to a later one can be
shown (`Lexer.Scanned.canBeShown`).
-/

namespace FlowSuite

namespace Text

/-- Some characters of a text end at an offset, and the others begin there. -/
def IsBoundary (text : List Char) (offset : Nat) : Prop :=
  ∃ before after, text = before ++ after ∧ offset = byteCount before

theorem byteCount_toList (s : String) : byteCount s.toList = s.utf8ByteSize := by
  have hlist (cs : List Char) : (String.ofList cs).utf8ByteSize = byteCount cs := by
    induction cs with
    | nil => rfl
    | cons c cs ih =>
      have hcons : String.ofList (c :: cs) = String.singleton c ++ String.ofList cs := by
        rw [← String.toList_inj]
        simp
      rw [hcons, String.utf8ByteSize_append, String.utf8ByteSize_singleton, ih, byteCount_cons]
  rw [← hlist, String.ofList_toList]

/-- As many characters begin before the end of a part of a text as it has. -/
theorem charIndex_byteCount (before after : List Char) :
    charIndex (byteCount before) (before ++ after) = before.length := by
  induction before with
  | nil => cases after <;> rfl
  | cons c cs ih =>
    obtain ⟨n, hn⟩ : ∃ n, c.utf8Size = n + 1 := Nat.exists_eq_add_one.mpr c.utf8Size_pos
    have hpassed : n + byteCount cs + 1 - c.utf8Size = byteCount cs := by omega
    have hsum : byteCount (c :: cs) = n + byteCount cs + 1 := by
      rw [byteCount_cons]
      omega
    rw [hsum, List.cons_append, charIndex, hpassed, ih, List.length_cons]

/-- Of two parts in front of a text the one with fewer bytes is in front of the other. -/
theorem prefix_of_byteCount_le {a b c d : List Char} (h : a ++ b = c ++ d) (hle : byteCount a ≤ byteCount c) :
    a <+: c := by
  rcases List.append_eq_append_iff.mp h with ⟨more, rfl, _⟩ | ⟨more, rfl, _⟩
  · exact List.prefix_append a more
  · have hmore : more = [] := by
      by_contra hne
      have hpos := byteCount_pos hne
      rw [byteCount_append] at hle
      omega
    subst hmore
    simp

end Text

open Text (byteCount IsBoundary charRange slice)

namespace Span

/-- A range of bytes that can be cut out of a text and shown in it: it goes on from one boundary to another, its slice
is what stands between them, and its caret range covers the characters of that slice. -/
structure CanBeShown (s : Span) (text : List Char) : Prop where
  forward : s.start ≤ s.stop
  stop_le : s.stop ≤ byteCount text
  start_boundary : IsBoundary text s.start
  stop_boundary : IsBoundary text s.stop
  slice_between : ∃ before after, text = before ++ slice s text ++ after ∧ byteCount before = s.start ∧
    byteCount (before ++ slice s text) = s.stop
  caret_forward : (charRange text s).1 ≤ (charRange text s).2
  caret_le : (charRange text s).2 ≤ text.length
  caret_text : (text.drop (charRange text s).1).take ((charRange text s).2 - (charRange text s).1) = slice s text

variable {text : List Char} {s : Span}

/-- **The range of a part of a text can be shown.** -/
theorem canBeShown_of_parts (before inside after : List Char) :
    CanBeShown ⟨byteCount before, byteCount before + byteCount inside⟩ (before ++ inside ++ after) := by
  have hslice := Text.slice_byteCount before inside after
  have hstart := Text.charIndex_byteCount before (inside ++ after)
  have hstop := Text.charIndex_byteCount (before ++ inside) after
  rw [← List.append_assoc] at hstart
  rw [Text.byteCount_append] at hstop
  have hcaret : charRange (before ++ inside ++ after) ⟨byteCount before, byteCount before + byteCount inside⟩ =
      (before.length, before.length + inside.length) := by
    rw [charRange, hstart, hstop, List.length_append, Nat.max_eq_left (Nat.le_add_right _ _)]
  refine ⟨Nat.le_add_right _ _, ?_, ?_, ?_, ?_, ?_, ?_, ?_⟩
  · rw [Text.byteCount_append, Text.byteCount_append]
    exact Nat.le_add_right _ _
  · exact ⟨before, inside ++ after, List.append_assoc _ _ _, rfl⟩
  · exact ⟨before ++ inside, after, rfl, (Text.byteCount_append _ _).symm⟩
  · rw [hslice]
    exact ⟨before, after, rfl, rfl, Text.byteCount_append _ _⟩
  · rw [hcaret]
    exact Nat.le_add_right _ _
  · rw [hcaret, List.length_append, List.length_append]
    exact Nat.le_add_right _ _
  · rw [hcaret, hslice, Nat.add_sub_cancel_left, List.append_assoc, List.drop_left, List.take_left]

/-- What goes from a boundary to a later one is the range of a part. -/
theorem exists_parts (h : s.start ≤ s.stop) (hstart : IsBoundary text s.start) (hstop : IsBoundary text s.stop) :
    ∃ before inside after, text = before ++ inside ++ after ∧
      s = ⟨byteCount before, byteCount before + byteCount inside⟩ := by
  obtain ⟨start, stop⟩ := s
  obtain ⟨before, behind, htext, rfl⟩ := hstart
  obtain ⟨upTo, after, htext', rfl⟩ := hstop
  obtain ⟨inside, rfl⟩ := Text.prefix_of_byteCount_le (htext.symm.trans htext') h
  refine ⟨before, inside, after, htext', ?_⟩
  rw [Text.byteCount_append]

theorem canBeShown_of_boundaries (h : s.start ≤ s.stop) (hstart : IsBoundary text s.start)
    (hstop : IsBoundary text s.stop) : s.CanBeShown text := by
  obtain ⟨before, inside, after, rfl, rfl⟩ := exists_parts h hstart hstop
  exact canBeShown_of_parts before inside after

end Span

/-! ## Tokens -/

namespace Lexer

variable {offset : Nat} {cs : List Char} {ts vs : List Token}

/-- A token of a text is the one at its end, or it is what is next at its place, and it begins with no blank. -/
theorem Scanned.cases_located (h : Scanned offset cs ts) : ∀ t ∈ ts, t = .atEnd (offset + byteCount cs) ∨
    ∃ before after, cs = before ++ (t.lexeme ++ after) ∧
      t.span = ⟨offset + byteCount before, offset + byteCount before + byteCount t.lexeme⟩ ∧
      (∃ c, ¬isBlank c ∧ t.lexeme.head? = some c) ∧ next (t.lexeme ++ after) = (t.kind, t.lexeme) := by
  induction h with
  | atEnd => exact List.forall_mem_singleton.mpr (.inl rfl)
  | @blank offset c cs ts _ _ ih =>
    intro t ht
    rw [Text.byteCount_cons, ← Nat.add_assoc]
    refine (ih t ht).imp_right ?_
    rintro ⟨before, after, rfl, hspan, hnext⟩
    refine ⟨c :: before, after, rfl, ?_, hnext⟩
    rw [Text.byteCount_cons, ← Nat.add_assoc]
    exact hspan
  | @token offset c text lexeme rest kind ts hc hhead htext hnext _ ih =>
    subst htext
    rw [Text.byteCount_append, ← Nat.add_assoc]
    refine List.forall_mem_cons.mpr ⟨.inr ⟨[], rest, rfl, rfl, ⟨c, hc, hhead⟩, hnext⟩, fun t ht => ?_⟩
    refine (ih t ht).imp_right ?_
    rintro ⟨before, after, rfl, hspan, hnext⟩
    refine ⟨lexeme ++ before, after, (List.append_assoc _ _ _).symm, ?_, hnext⟩
    rw [Text.byteCount_append, ← Nat.add_assoc]
    exact hspan

/-- Tokens begin and end between characters. -/
theorem Scanned.isBoundary (h : Scanned 0 cs ts) :
    ∀ t ∈ ts, IsBoundary cs t.span.start ∧ IsBoundary cs t.span.stop := by
  intro t ht
  rcases h.cases_located t ht with rfl | ⟨before, after, rfl, hspan, _⟩
  · rw [Nat.zero_add]
    have hend : IsBoundary cs (byteCount cs) := ⟨cs, [], (List.append_nil cs).symm, rfl⟩
    exact ⟨hend, hend⟩
  · rw [hspan, Nat.zero_add]
    refine ⟨⟨before, t.lexeme ++ after, rfl, rfl⟩, before ++ t.lexeme, after, ?_, ?_⟩
    · rw [List.append_assoc]
    · rw [Text.byteCount_append]

/-- **The range from one token to a later one can be shown.** -/
theorem Scanned.canBeShown (h : Scanned 0 cs ts) (hvs : vs <:+: ts) {s : Span} (hs : Spans vs s) :
    s.CanBeShown cs := by
  have hord : Ordered vs := h.ordered.1.part hvs
  obtain ⟨first, hfirst, last, hlast, rfl⟩ := hs
  have hfirst' : first ∈ vs := List.mem_of_head? hfirst
  have hlast' : last ∈ vs := List.mem_of_getLast? hlast
  refine Span.canBeShown_of_boundaries ?_ (h.isBoundary first (hvs.subset hfirst')).1
    (h.isBoundary last (hvs.subset hlast')).2
  exact Nat.le_trans (hord.start_le hfirst hlast') (hord.forward last hlast')

end Lexer

end FlowSuite
