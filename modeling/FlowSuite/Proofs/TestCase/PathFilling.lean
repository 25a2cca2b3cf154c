import Mathlib.Data.List.Basic
import FlowSuite.Proofs.Script.Templates
import FlowSuite.TestCase.Request

/-!
# Paths are filled exactly

A placeholder opens at an open brace and closes at the first closing brace behind it. `Path.Cut` cuts a path at its
placeholders from left to right, in one way only (`Path.Cut.unique`, `Path.exists_cut`); an open brace that is never
closed belongs to the text behind the last of them.

`Path.pieces` are the pieces of this cut (`Path.Cut.pieces_eq`), and `Path.fill` adds them in their places: a slot for
each placeholder that is bound, and all else as it stands (`Path.glyphs_fill`). So nothing is lost or added, and where
constants have different names, the path can be read off the template again (`fill_exact`).
-/

namespace FlowSuite

open Script (Expr Template Glyph)

namespace Path

/-! ## Cutting at placeholders -/

/-- The first placeholder of a text, between what stands in front of it and what stands behind it. -/
structure Opens (cs before name after : List Char) : Prop where
  eq : cs = before ++ '\x7b' :: (name ++ '\x7d' :: after)
  open_not_mem : '\x7b' ∉ before
  close_not_mem : '\x7d' ∉ name

/-- A text is cut into its placeholders, each a text in front of it and its name, and the text behind the last one. -/
inductive Cut : List Char → List (List Char × List Char) → List Char → Prop
  | last {cs : List Char} : (∀ before name after, ¬Opens cs before name after) → Cut cs [] cs
  | next {cs before name after : List Char} {more : List (List Char × List Char)} {rest : List Char} :
      Opens cs before name after → Cut after more rest → Cut cs ((before, name) :: more) rest

/-- Two texts with a character behind parts that do not hold it are equal part by part; behind it anything may stand, so
`List.append_cons_inj_of_notMem` does not apply. -/
theorem append_cons_unique {c : Char} {xs ys zs ws : List Char} (hxs : c ∉ xs) (hzs : c ∉ zs)
    (h : xs ++ c :: ys = zs ++ c :: ws) : xs = zs ∧ ys = ws := by
  induction xs generalizing zs with
  | nil =>
    cases zs with
    | nil => exact ⟨rfl, (List.cons.inj h).2⟩
    | cons z zs => exact absurd (List.cons.inj h).1 fun hc => hzs (hc ▸ List.mem_cons_self)
  | cons x xs ih =>
    cases zs with
    | nil => exact absurd (List.cons.inj h).1 fun hc => hxs (hc ▸ List.mem_cons_self)
    | cons z zs =>
      obtain ⟨rfl, htail⟩ := List.cons.inj h
      obtain ⟨rfl, rfl⟩ := ih (mt (List.mem_cons_of_mem x) hxs) (mt (List.mem_cons_of_mem x) hzs) htail
      exact ⟨rfl, rfl⟩

section

variable {cs before name after before' name' after' : List Char}

theorem Opens.unique (h : Opens cs before name after) (h' : Opens cs before' name' after') :
    before = before' ∧ name = name' ∧ after = after' := by
  obtain ⟨rfl, hbehind⟩ := append_cons_unique h.open_not_mem h'.open_not_mem (h.eq.symm.trans h'.eq)
  exact ⟨rfl, append_cons_unique h.close_not_mem h'.close_not_mem hbehind⟩

theorem Cut.unique {placeholders others : List (List Char × List Char)} {rest rest' : List Char}
    (h : Cut cs placeholders rest) (h' : Cut cs others rest') : others = placeholders ∧ rest' = rest := by
  induction h generalizing others rest' with
  | last hnone =>
    cases h' with
    | last _ => exact ⟨rfl, rfl⟩
    | next hopens _ => exact absurd hopens (hnone _ _ _)
  | next hopens _ ih =>
    cases h' with
    | last hnone => exact absurd hopens (hnone _ _ _)
    | next hopens' hcut =>
      obtain ⟨rfl, rfl, rfl⟩ := hopens'.unique hopens
      obtain ⟨rfl, rfl⟩ := ih hcut
      exact ⟨rfl, rfl⟩

/-- **Every path is cut at its placeholders.** -/
theorem exists_cut (cs : List Char) : ∃ placeholders rest, Cut cs placeholders rest := by
  induction hn : cs.length using Nat.strongRecOn generalizing cs with
  | _ n ih =>
    subst hn
    by_cases h : ∃ before name after, Opens cs before name after
    · obtain ⟨before, name, after, hopens⟩ := h
      obtain ⟨more, rest, hcut⟩ := ih after.length (by rw [hopens.eq]; simp; omega) after rfl
      exact ⟨_, rest, .next hopens hcut⟩
    · exact ⟨[], cs, .last fun before name after hopens => h ⟨before, name, after, hopens⟩⟩

/-- The placeholders and the text behind them are all of the path. -/
theorem Cut.eq {placeholders : List (List Char × List Char)} {rest : List Char} (h : Cut cs placeholders rest) :
    cs = (placeholders.flatMap fun p => p.1 ++ '\x7b' :: p.2 ++ ['\x7d']) ++ rest := by
  induction h with
  | last => rfl
  | next hopens _ ih =>
    rw [hopens.eq, ih]
    simp only [List.flatMap_cons, List.append_assoc, List.cons_append, List.nil_append]

/-! ## Pieces -/

/-- The piece for a text, if there is any. -/
def textPieces : List Char → List PathPiece
  | [] => []
  | c :: cs => [.text (c :: cs)]

theorem pieces_opened_close (hname : '\x7d' ∉ name) (cs : List Char) : ∀ opened : List Char,
    pieces (some opened) (name ++ '\x7d' :: cs) = .placeholder (opened ++ name) :: pieces none cs := by
  induction name with
  | nil => simp [pieces]
  | cons c name ih =>
    intro opened
    simp only [List.mem_cons, not_or] at hname
    rw [List.cons_append, pieces, if_neg (Ne.symm hname.1), ih hname.2, List.append_assoc]
    rfl

theorem pieces_opened (h : '\x7d' ∉ cs) : ∀ opened : List Char,
    pieces (some opened) cs = [.text ('\x7b' :: (opened ++ cs))] := by
  induction cs with
  | nil => simp [pieces]
  | cons c cs ih =>
    intro opened
    simp only [List.mem_cons, not_or] at h
    rw [pieces, if_neg (Ne.symm h.1), ih h.2, List.append_assoc]
    rfl

theorem pieces_append (h : '\x7b' ∉ before) (cs : List Char) :
    pieces none (before ++ cs) = before.foldr consText (pieces none cs) := by
  induction before with
  | nil => rfl
  | cons c before ih =>
    simp only [List.mem_cons, not_or] at h
    rw [List.cons_append, pieces, if_neg (Ne.symm h.1), ih h.2]
    rfl

theorem foldr_consText_text (before text : List Char) (more : List PathPiece) :
    before.foldr consText (.text text :: more) = .text (before ++ text) :: more := by
  induction before with
  | nil => rfl
  | cons c before ih =>
    rw [List.foldr_cons, ih]
    rfl

theorem foldr_consText (before : List Char) {more : List PathPiece} (h : ∀ text ps, more ≠ .text text :: ps) :
    before.foldr consText more = textPieces before ++ more := by
  induction before with
  | nil => rfl
  | cons c before ih =>
    rw [List.foldr_cons, ih]
    cases before with
    | nil =>
      match more, h with
      | [], _ | .placeholder _ :: _, _ => rfl
      | .text text :: ps, h => exact absurd rfl (h text ps)
    | cons d before => rfl

theorem Cut.pieces_eq {placeholders : List (List Char × List Char)} {rest : List Char} (h : Cut cs placeholders rest) :
    pieces none cs = (placeholders.flatMap fun p => textPieces p.1 ++ [.placeholder p.2]) ++ textPieces rest := by
  induction h with
  | @last cs hnone =>
    by_cases hopen : '\x7b' ∈ cs
    · obtain ⟨before, after, rfl, hbefore⟩ := List.eq_append_cons_of_mem hopen
      have hafter : '\x7d' ∉ after := by
        intro hclose
        obtain ⟨name, after, rfl, hname⟩ := List.eq_append_cons_of_mem hclose
        exact hnone before name after ⟨rfl, hbefore, hname⟩
      rw [pieces_append hbefore, pieces, if_pos rfl, pieces_opened hafter, foldr_consText_text]
      cases before <;> rfl
    · have := pieces_append hopen []
      rw [List.append_nil] at this
      rw [this, pieces, foldr_consText cs (by simp)]
      simp
  | @next cs before name after more rest hopens _ ih =>
    rw [hopens.eq, pieces_append hopens.open_not_mem, pieces, if_pos rfl,
      pieces_opened_close hopens.close_not_mem, foldr_consText before (by simp), ih]
    simp

end

/-! ## Filling -/

/-- What stands in a template for a placeholder: the slot with its constant, or the placeholder where it has none. -/
def filled (constant? : Option String) (name : List Char) : List Glyph :=
  match constant? with
  | some constant => [.slot (.ident constant)]
  | none => Glyph.ofText ('\x7b' :: name ++ ['\x7d'])

section

variable {bindings : List Binding}

theorem lookup?_eq_none_iff {name : List Char} :
    lookup? bindings name = none ↔ ∀ b ∈ bindings, b.parameter.toList ≠ name := by
  simp [lookup?]

variable (bindings)

/-- What a piece of a path becomes. -/
def filledPiece : PathPiece → List Glyph
  | .text text => Glyph.ofText text
  | .placeholder name => filled (lookup? bindings name) name

/-- The name of a piece, where it is a placeholder that is not bound. -/
def unboundPiece? : PathPiece → Option String
  | .text _ => none
  | .placeholder name => if lookup? bindings name = none then some (String.ofList name) else none

theorem fillPieces_bound {name : List Char} {constant : String} (h : lookup? bindings name = some constant)
    (more : List PathPiece) (t : Template) :
    fillPieces bindings (.placeholder name :: more) t = fillPieces bindings more (t.push (.ident constant) "") := by
  rw [fillPieces, h]

theorem fillPieces_unbound {name : List Char} (h : lookup? bindings name = none) (more : List PathPiece)
    (t : Template) :
    fillPieces bindings (.placeholder name :: more) t =
      (fillPieces bindings more (t.pushText (String.ofList (PathPiece.placeholder name).written))).map id
        (String.ofList name :: ·) := by
  rw [fillPieces, h]
  rfl

theorem fillPieces_eq : ∀ (pieces : List PathPiece) (t : Template),
    (fillPieces bindings pieces t).1.glyphs = t.glyphs ++ pieces.flatMap (filledPiece bindings) ∧
      (fillPieces bindings pieces t).2 = pieces.filterMap (unboundPiece? bindings)
  | [], t => by simp [fillPieces]
  | .text text :: more, t => by
    obtain ⟨hglyphs, hunbound⟩ := fillPieces_eq more (t.pushText (String.ofList text))
    rw [fillPieces, hglyphs, hunbound]
    simp [filledPiece, List.filterMap_cons, unboundPiece?]
  | .placeholder name :: more, t => by
    cases hlookup : lookup? bindings name with
    | none =>
      obtain ⟨hglyphs, hunbound⟩ :=
        fillPieces_eq more (t.pushText (String.ofList (PathPiece.placeholder name).written))
      rw [fillPieces_unbound bindings hlookup, Prod.map_fst, Prod.map_snd, id, hglyphs, hunbound]
      simp [filledPiece, filled, hlookup, unboundPiece?, PathPiece.written]
    | some constant =>
      obtain ⟨hglyphs, hunbound⟩ := fillPieces_eq more (t.push (.ident constant) "")
      rw [fillPieces_bound bindings hlookup, hglyphs, hunbound]
      simp [filledPiece, filled, hlookup, unboundPiece?]

variable {bindings}

theorem flatMap_filledPiece_textPieces (text : List Char) :
    (textPieces text).flatMap (filledPiece bindings) = Glyph.ofText text := by
  cases text <;> simp [textPieces, filledPiece]

theorem filterMap_unboundPiece?_textPieces (text : List Char) :
    (textPieces text).filterMap (unboundPiece? bindings) = [] := by
  cases text <;> simp [textPieces, unboundPiece?]

variable {path : String} {placeholders : List (List Char × List Char)} {rest : List Char}

/-- **What is added for a path** are the texts of its cut as they stand, with each placeholder between them filled. -/
theorem glyphs_fill (h : Cut path.toList placeholders rest) (t : Template) :
    (fill path bindings t).1.glyphs = t.glyphs ++
      ((placeholders.flatMap fun p => Glyph.ofText p.1 ++ filled (lookup? bindings p.2) p.2) ++ Glyph.ofText rest) := by
  rw [fill, (fillPieces_eq bindings _ t).1, h.pieces_eq, List.flatMap_append, List.flatMap_assoc,
    flatMap_filledPiece_textPieces]
  simp only [List.flatMap_append, flatMap_filledPiece_textPieces, List.flatMap_singleton, filledPiece]

/-- The names that are given back are those of the placeholders that are not bound. -/
theorem unbound_fill (h : Cut path.toList placeholders rest) (t : Template) :
    (fill path bindings t).2 =
      (placeholders.filter fun p => lookup? bindings p.2 = none).map fun p => String.ofList p.2 := by
  rw [fill, (fillPieces_eq bindings _ t).2, h.pieces_eq, List.filterMap_append, filterMap_unboundPiece?_textPieces,
    List.append_nil]
  clear h
  induction placeholders with
  | nil => rfl
  | cons p placeholders ih =>
    rw [List.flatMap_cons, List.filterMap_append, List.filterMap_append, filterMap_unboundPiece?_textPieces, ih]
    by_cases hname : lookup? bindings p.2 = none <;> simp [unboundPiece?, hname]

end

end Path

/-! ## Reading the path off a template -/

/-- A template written as a path again, where each slot stands for the parameter whose constant it holds. -/
def Script.Glyph.writtenBack (bindings : List Binding) : Glyph → List Char
  | .char c => [c]
  | .slot (.ident constant) =>
    match bindings.find? (·.constant = constant) with
    | some b => '\x7b' :: b.parameter.toList ++ ['\x7d']
    | none => []
  | .slot _ => []

theorem find?_constant {bindings : List Binding} (hdistinct : (bindings.map Binding.constant).Nodup) {b : Binding}
    (hb : b ∈ bindings) : bindings.find? (·.constant = b.constant) = some b := by
  induction bindings with
  | nil => cases hb
  | cons first bindings ih =>
    obtain ⟨hfirst, hdistinct⟩ := List.nodup_cons.mp hdistinct
    rcases List.mem_cons.mp hb with rfl | hb
    · rw [List.find?_cons_of_pos (by simp)]
    · have hne : first.constant ≠ b.constant := fun h => hfirst (h ▸ List.mem_map_of_mem hb)
      rw [List.find?_cons_of_neg (by simpa using hne), ih hdistinct hb]

section

variable {bindings : List Binding}

theorem flatMap_writtenBack_ofText (cs : List Char) :
    (Glyph.ofText cs).flatMap (Glyph.writtenBack bindings) = cs := by
  induction cs with
  | nil => rfl
  | cons c cs ih =>
    rw [Glyph.ofText_cons, List.flatMap_cons, ih]
    rfl

/-- What stands for a placeholder is written back as the placeholder. -/
theorem flatMap_writtenBack_filled (hdistinct : (bindings.map Binding.constant).Nodup) (name : List Char) :
    (Path.filled (Path.lookup? bindings name) name).flatMap (Glyph.writtenBack bindings) =
      '\x7b' :: name ++ ['\x7d'] := by
  cases hlookup : Path.lookup? bindings name with
  | none => exact flatMap_writtenBack_ofText _
  | some constant =>
    obtain ⟨b, hfind, rfl⟩ := Option.map_eq_some_iff.mp hlookup
    have hname : b.parameter.toList = name := by simpa using List.find?_some hfind
    have hback := find?_constant hdistinct (List.mem_of_find?_eq_some hfind)
    simp [Path.filled, Glyph.writtenBack, hback, hname]

/-- What is added for a path is written back as the path. -/
theorem flatMap_writtenBack_cut (hdistinct : (bindings.map Binding.constant).Nodup) {cs rest : List Char}
    {placeholders : List (List Char × List Char)} (h : Path.Cut cs placeholders rest) :
    ((placeholders.flatMap fun p => Glyph.ofText p.1 ++ Path.filled (Path.lookup? bindings p.2) p.2) ++
      Glyph.ofText rest).flatMap (Glyph.writtenBack bindings) = cs := by
  have hplaceholder (p : List Char × List Char) :
      (Glyph.ofText p.1 ++ Path.filled (Path.lookup? bindings p.2) p.2).flatMap (Glyph.writtenBack bindings) =
        p.1 ++ '\x7b' :: p.2 ++ ['\x7d'] := by
    rw [List.flatMap_append, flatMap_writtenBack_ofText, flatMap_writtenBack_filled hdistinct]
    simp
  rw [List.flatMap_append, List.flatMap_assoc, flatMap_writtenBack_ofText]
  simp only [hplaceholder]
  exact h.eq.symm

theorem filterMap_slot?_filled (constant? : Option String) (name : List Char) :
    (Path.filled constant? name).filterMap Glyph.slot? = (constant?.map Expr.ident).toList := by
  cases constant? with
  | none => exact Glyph.filterMap_slot?_ofText _
  | some constant => rfl

/-- Its slots are those of the placeholders that have constants. -/
theorem filterMap_slot?_cut (constant? : List Char → Option String) (placeholders : List (List Char × List Char))
    (rest : List Char) :
    ((placeholders.flatMap fun p => Glyph.ofText p.1 ++ Path.filled (constant? p.2) p.2) ++
      Glyph.ofText rest).filterMap Glyph.slot? = placeholders.filterMap fun p => (constant? p.2).map Expr.ident := by
  rw [List.filterMap_append, Glyph.filterMap_slot?_ofText, List.append_nil, List.filterMap_flatMap,
    List.filterMap_eq_flatMap_toList]
  simp only [List.filterMap_append, Glyph.filterMap_slot?_ofText, List.nil_append, filterMap_slot?_filled]

end

/-- **A path is filled exactly.** It is cut at its placeholders in one way. What is added to a template are the texts of
this cut as they stand and, for each placeholder, a slot with the constant of the first binding of its name, or the
placeholder itself where no parameter of this name is bound; the names of these are given back in their order. Written
back, where constants have different names, what is added is the path. -/
theorem fill_exact (path : String) {bindings : List Binding} (hdistinct : (bindings.map Binding.constant).Nodup)
    (t : Template) :
    ∃ placeholders rest added, Path.Cut path.toList placeholders rest ∧
      (∀ others end', Path.Cut path.toList others end' → others = placeholders ∧ end' = rest) ∧
      (Path.fill path bindings t).1.glyphs = t.glyphs ++ added ∧
      added = (placeholders.flatMap fun p => Glyph.ofText p.1 ++
        Path.filled ((bindings.find? (·.parameter.toList = p.2)).map Binding.constant) p.2) ++ Glyph.ofText rest ∧
      added.flatMap (Glyph.writtenBack bindings) = path.toList ∧
      added.filterMap Glyph.slot? = (placeholders.filterMap fun p =>
        ((bindings.find? (·.parameter.toList = p.2)).map Binding.constant).map Expr.ident) ∧
      (Path.fill path bindings t).2 =
        (placeholders.filter fun p => ∀ b ∈ bindings, b.parameter.toList ≠ p.2).map fun p => String.ofList p.2 := by
  obtain ⟨placeholders, rest, hcut⟩ := Path.exists_cut path.toList
  have hunbound : (Path.fill path bindings t).2 =
      (placeholders.filter fun p => ∀ b ∈ bindings, b.parameter.toList ≠ p.2).map fun p => String.ofList p.2 := by
    simp only [Path.unbound_fill hcut t, Path.lookup?_eq_none_iff]
  exact ⟨placeholders, rest, _, hcut, fun others end' h => hcut.unique h, Path.glyphs_fill hcut t, rfl,
    flatMap_writtenBack_cut hdistinct hcut, filterMap_slot?_cut (Path.lookup? bindings) placeholders rest, hunbound⟩

/-- A path with a placeholder that is bound twice, one without a name, one that holds an open brace, and a brace that is
not closed. -/
def partPath : String := "/parts/\x7bid\x7d\x7b\x7d/\x7bpart\x7bid\x7d:\x7bid\x7d/\x7brest"

/-- The bindings for it. -/
def partBindings : List Binding := [⟨"id", "id"⟩, ⟨"", "_"⟩, ⟨"id", "id2"⟩]

/-- It is filled with the constants of `id`, of the parameter without a name, and of `id` again, and is written back. -/
theorem fill_exact_partPath : (partBindings.map Binding.constant).Nodup ∧
    ∃ added, (Path.fill partPath partBindings (.ofText "/v1")).1.glyphs = Glyph.ofText "/v1".toList ++ added ∧
      added.flatMap (Glyph.writtenBack partBindings) = partPath.toList ∧
      (Path.fill partPath partBindings (.ofText "/v1")).1.slots.map Prod.fst =
        [.ident "id", .ident "_", .ident "id"] ∧
      (Path.fill partPath partBindings (.ofText "/v1")).2 = ["part\x7bid"] := by
  have hdistinct : (partBindings.map Binding.constant).Nodup := by decide
  obtain ⟨placeholders, rest, added, _, _, hglyphs, _, hback, _, _⟩ :=
    fill_exact partPath hdistinct (.ofText "/v1")
  exact ⟨hdistinct, added, by rw [hglyphs, Template.glyphs_ofText], hback, rfl, rfl⟩

end FlowSuite
