import FlowSuite.Script.Printer

/-!
# Templates

A template is made of characters and slots (`Template.glyphs`). What is added to it stands behind what it is made of
already: text character by character (`glyphs_pushText`), a slot as one piece (`glyphs_push`).

Between its backticks a template is written as text and slots. A backslash in the text stands for the character behind
it, so that an escaped backtick does not end the template and an escaped dollar sign opens no slot.

* `escapeInTemplate_eq`: the escapes of a text are those of its backslashes, its backticks and its starts of slots, made
  one after the other. No step escapes again what the one before it has made.
* `readText_escapeInTemplate`: an escaped text is read as the text, unless it is followed by an open brace; a text can
  end with a dollar sign. Behind a text stands a slot or the end of the template, so `readTemplate?_text` follows.
-/

namespace FlowSuite

/-! ## What templates are made of -/

namespace Script

/-- The smallest pieces of a template. -/
inductive Glyph where
  | char (c : Char)
  | slot (e : Expr)

namespace Glyph

/-- The characters of a text. -/
def ofText (cs : List Char) : List Glyph := cs.map char

@[simp] theorem ofText_nil : ofText [] = [] := rfl

@[simp] theorem ofText_cons (c : Char) (cs : List Char) : ofText (c :: cs) = char c :: ofText cs := rfl

@[simp] theorem ofText_append (cs ds : List Char) : ofText (cs ++ ds) = ofText cs ++ ofText ds := List.map_append

/-- What stands in a slot. -/
def slot? : Glyph → Option Expr
  | char _ => none
  | slot e => some e

@[simp] theorem filterMap_slot?_ofText (cs : List Char) : (ofText cs).filterMap slot? = [] := by
  simp [ofText, List.filterMap_map, Function.comp_def, slot?]

/-- A slot and the text behind it. -/
def ofSlot (slot : Expr × String) : List Glyph := .slot slot.1 :: ofText slot.2.toList

end Glyph

namespace Template

/-- The characters and slots of a template. -/
def glyphs (t : Template) : List Glyph := Glyph.ofText t.head.toList ++ t.slots.flatMap Glyph.ofSlot

@[simp] theorem glyphs_ofText (text : String) : (ofText text).glyphs = Glyph.ofText text.toList := by
  simp [glyphs, ofText]

@[simp] theorem glyphs_push (t : Template) (slot : Expr) (tail : String) :
    (t.push slot tail).glyphs = t.glyphs ++ Glyph.slot slot :: Glyph.ofText tail.toList := by
  simp [glyphs, push, Glyph.ofSlot]

theorem flatMap_appendTail (text : String) : ∀ {slots : List (Expr × String)}, slots ≠ [] →
    (appendTail text slots).flatMap Glyph.ofSlot = slots.flatMap Glyph.ofSlot ++ Glyph.ofText text.toList
  | [], h => absurd rfl h
  | [(slot, tail)], _ => by simp [appendTail, Glyph.ofSlot]
  | slot :: next :: more, _ => by
    rw [appendTail, List.flatMap_cons, List.flatMap_cons, flatMap_appendTail text (List.cons_ne_nil next more),
      List.append_assoc]
    simp

@[simp] theorem glyphs_pushText (t : Template) (text : String) :
    (t.pushText text).glyphs = t.glyphs ++ Glyph.ofText text.toList := by
  unfold pushText
  split
  · next h => simp [glyphs, List.isEmpty_iff.mp h]
  · next h => simp [glyphs, flatMap_appendTail text (mt List.isEmpty_iff.mpr h)]

end Template

end Script

/-! ## Replacing -/

namespace Text

/-- A text with a new piece for each occurrence of an old one, from the left; the rest of an occurrence is passed
over. -/
def replacedFrom (old new : List Char) : (pass : Nat) → List Char → List Char
  | _, [] => []
  | pass + 1, _ :: cs => replacedFrom old new pass cs
  | 0, c :: cs =>
    if old.isPrefixOf (c :: cs) then new ++ replacedFrom old new (old.length - 1) cs
    else c :: replacedFrom old new 0 cs

/-- A text with a new piece for each occurrence of an old one. -/
def replaced (old new cs : List Char) : List Char := replacedFrom old new 0 cs

variable {a c : Char} {new cs : List Char}

@[simp] theorem replaced_nil (old new : List Char) : replaced old new [] = [] := rfl

theorem replaced_self (a : Char) (new cs : List Char) :
    replaced [a] new (a :: cs) = new ++ replaced [a] new cs := by
  simp [replaced, replacedFrom]

theorem replaced_of_ne (old : List Char) (h : c ≠ a) (cs : List Char) :
    replaced (a :: old) new (c :: cs) = c :: replaced (a :: old) new cs := by
  simp [replaced, replacedFrom, List.isPrefixOf, h.symm]

theorem replaced_pair (a b : Char) (new cs : List Char) :
    replaced [a, b] new (a :: b :: cs) = new ++ replaced [a, b] new cs := by
  simp [replaced, replacedFrom]

theorem replaced_pair_of_head? {b : Char} (h : cs.head? ≠ some b) :
    replaced [a, b] new (a :: cs) = a :: replaced [a, b] new cs := by
  cases cs with
  | nil => simp [replaced, replacedFrom, List.isPrefixOf]
  | cons d cs =>
    have hd : b ≠ d := fun hd => h (by simp [hd])
    simp [replaced, replacedFrom, List.isPrefixOf, hd]

/-- A character at the start comes from the text or from the new piece. -/
theorem head?_replaced {d : Char} (hnew : new.head? ≠ some d) (hne : new ≠ []) (h : cs.head? ≠ some d) :
    (replaced [a] new cs).head? ≠ some d := by
  cases cs with
  | nil => simp
  | cons c cs =>
    by_cases hc : c = a
    · subst hc
      obtain ⟨e, new, rfl⟩ := List.exists_cons_of_ne_nil hne
      rw [replaced_self]
      exact hnew
    · rw [replaced_of_ne [] hc]
      exact h

end Text

namespace Script

open Text (replaced)

/-! ## Escapes -/

/-- A text with its backslashes escaped, then its backticks, then its starts of slots. -/
def escapedInTurn (cs : List Char) : List Char :=
  replaced ['$', '\x7b'] ['\\', '$', '\x7b'] <| replaced ['\x60'] ['\\', '\x60'] <| replaced ['\\'] ['\\', '\\'] cs

/-- **The escapes of a text can be made one after the other.** -/
theorem escapeInTemplate_eq (cs : List Char) : escapeInTemplate cs = escapedInTurn cs := by
  unfold escapedInTurn
  fun_induction escapeInTemplate cs with
  | case1 => rfl
  | case2 cs ih => simp [ih, Text.replaced_self, Text.replaced_of_ne]
  | case3 cs ih => simp [ih, Text.replaced_self, Text.replaced_of_ne]
  | case4 cs ih => simp [ih, Text.replaced_pair, Text.replaced_of_ne]
  | case5 c cs hslash htick hopen ih =>
    rw [ih, Text.replaced_of_ne [] hslash, Text.replaced_of_ne [] htick]
    by_cases hc : c = '$'
    · -- The passes before the last keep what stands behind the dollar sign from becoming an open brace.
      subst hc
      have hhead : cs.head? ≠ some '\x7b' := by
        intro hhead
        obtain ⟨ds, rfl⟩ := List.head?_eq_some_iff.mp hhead
        exact hopen ds rfl rfl
      have hslashes : (replaced ['\\'] ['\\', '\\'] cs).head? ≠ some '\x7b' :=
        Text.head?_replaced (by decide) (by decide) hhead
      rw [Text.replaced_pair_of_head? (Text.head?_replaced (by decide) (by decide) hslashes)]
    · rw [Text.replaced_of_ne _ hc]

/-- What is escaped begins with an open brace only if the text does. -/
theorem head?_escapeInTemplate {cs : List Char} (h : cs.head? ≠ some '\x7b') :
    (escapeInTemplate cs).head? ≠ some '\x7b' := by
  fun_cases escapeInTemplate cs with
  | case1 => simp
  | case2 | case3 | case4 => simp
  | case5 c cs => simpa using h

/-! ## Reading -/

/-- What is read of a template: its first text, and its slots as they are written, each with the text behind it. -/
structure TemplateText where
  head : List Char
  slots : List (List Char × List Char)
deriving DecidableEq, Repr

namespace TemplateText

/-- Puts text in front. -/
def behind (cs : List Char) (t : TemplateText) : TemplateText := { t with head := cs ++ t.head }

/-- Puts a slot in front. -/
def behindSlot (slot : List Char) (t : TemplateText) : TemplateText := ⟨[], (slot, t.head) :: t.slots⟩

end TemplateText

mutual

/-- A template from inside its text up to its closing backtick, and what stands behind that. -/
def readText : List Char → Option (TemplateText × List Char)
  | [] => none
  | '\x60' :: cs => some (⟨[], []⟩, cs)
  | '\\' :: c :: cs => (readText cs).map fun (t, rest) => (t.behind [c], rest)
  | '$' :: '\x7b' :: cs => readSlot [] cs
  | c :: cs => (readText cs).map fun (t, rest) => (t.behind [c], rest)

/-- The same from inside a slot, behind what is read of it; the first closing brace ends the slot. -/
def readSlot (slot : List Char) : List Char → Option (TemplateText × List Char)
  | [] => none
  | '\x7d' :: cs => (readText cs).map fun (t, rest) => (t.behindSlot slot, rest)
  | c :: cs => readSlot (slot ++ [c]) cs

end

/-- The template that a text begins with, and what stands behind its closing backtick. -/
def readTemplate? : List Char → Option (TemplateText × List Char)
  | '\x60' :: cs => readText cs
  | _ => none

theorem TemplateText.behind_behind (cs ds : List Char) (t : TemplateText) :
    (t.behind ds).behind cs = t.behind (cs ++ ds) := by
  simp [behind]

section

variable {cs rest : List Char} {t : TemplateText}

/-- A character that neither ends the text nor escapes another one is read as itself. -/
theorem readText_cons {c : Char} (hslash : c ≠ '\\') (htick : c ≠ '\x60')
    (hopen : ¬(c = '$' ∧ cs.head? = some '\x7b')) (h : readText cs = some (t, rest)) :
    readText (c :: cs) = some (t.behind [c], rest) := by
  rw [readText.eq_5 c cs htick (fun _ _ hc _ => hslash hc)
    (fun ds hc hcs => hopen ⟨hc, List.head?_eq_some_iff.mpr ⟨ds, hcs⟩⟩), h]
  rfl

/-- A character behind a backslash is read as itself. -/
theorem readText_escaped (c : Char) (h : readText cs = some (t, rest)) :
    readText ('\\' :: c :: cs) = some (t.behind [c], rest) := by
  rw [readText, h]
  rfl

/-- **An escaped text is read as the text.** Behind a dollar sign at its end no brace may open. -/
theorem readText_escapeInTemplate (cs : List Char) {tail : List Char} (htail : tail.head? ≠ some '\x7b')
    (h : readText tail = some (t, rest)) : readText (escapeInTemplate cs ++ tail) = some (t.behind cs, rest) := by
  fun_induction escapeInTemplate cs with
  | case1 => exact h
  | case2 cs ih => rw [List.cons_append, List.cons_append, readText_escaped '\\' ih, TemplateText.behind_behind]; rfl
  | case3 cs ih => rw [List.cons_append, List.cons_append, readText_escaped '\x60' ih, TemplateText.behind_behind]; rfl
  | case4 cs ih =>
    have hbrace : readText ('\x7b' :: (escapeInTemplate cs ++ tail)) = some ((t.behind cs).behind ['\x7b'], rest) :=
      readText_cons (by decide) (by decide) (by simp) ih
    simp only [List.cons_append]
    rw [readText_escaped '$' hbrace, TemplateText.behind_behind, TemplateText.behind_behind]
    rfl
  | case5 c cs hslash htick hopen ih =>
    have hhead : ¬(c = '$' ∧ (escapeInTemplate cs ++ tail).head? = some '\x7b') := by
      rintro ⟨rfl, hhead⟩
      have hcs : cs.head? ≠ some '\x7b' := by
        intro hcs
        obtain ⟨ds, rfl⟩ := List.head?_eq_some_iff.mp hcs
        exact hopen ds rfl rfl
      rw [List.head?_append, Option.or_eq_some_iff] at hhead
      rcases hhead with hhead | ⟨_, hhead⟩
      · exact head?_escapeInTemplate hcs hhead
      · exact htail hhead
    rw [List.cons_append, readText_cons hslash htick hhead ih, TemplateText.behind_behind]
    rfl

/-- A slot is read up to the first closing brace. -/
theorem readSlot_append {slot : List Char} (hslot : '\x7d' ∉ slot) (h : readText cs = some (t, rest)) :
    ∀ before : List Char, readSlot before (slot ++ '\x7d' :: cs) = some (t.behindSlot (before ++ slot), rest) := by
  induction slot with
  | nil =>
    intro before
    rw [List.nil_append, readSlot, h, List.append_nil]
    rfl
  | cons c slot ih =>
    intro before
    obtain ⟨hc, hslot⟩ := not_or.mp (mt List.mem_cons.mpr hslot)
    rw [List.cons_append, readSlot.eq_3 before c _ (Ne.symm hc), ih hslot, List.append_assoc]
    rfl

/-- Behind the text of a template stands a slot or the end. -/
theorem head?_textOfSlots (level : Nat) (slots : List (Expr × String)) (rest : List Char) :
    (textOfSlots level slots ++ '\x60' :: rest).head? ≠ some '\x7b' := by
  cases slots <;> simp [textOfSlots]

/-- **Slots are read back**, each with the text behind it. -/
theorem readText_textOfSlots (level : Nat) (rest : List Char) {slots : List (Expr × String)}
    (h : ∀ slot ∈ slots, '\x7d' ∉ slot.1.text level) :
    readText (textOfSlots level slots ++ '\x60' :: rest) =
      some (⟨[], slots.map fun slot => (slot.1.text level, slot.2.toList)⟩, rest) := by
  induction slots with
  | nil => rfl
  | cons slot slots ih =>
    obtain ⟨slot, tail⟩ := slot
    obtain ⟨hslot, hslots⟩ := List.forall_mem_cons.mp h
    have htail := readText_escapeInTemplate tail.toList (head?_textOfSlots level slots rest) (ih hslots)
    have hread := readSlot_append hslot htail []
    rw [textOfSlots]
    simp only [List.cons_append, List.append_assoc]
    rw [readText, hread]
    simp [TemplateText.behind, TemplateText.behindSlot]

end

theorem textOfSlots_eq (level : Nat) (slots : List (Expr × String)) :
    textOfSlots level slots = slots.flatMap fun slot =>
      '$' :: '\x7b' :: slot.1.text level ++ '\x7d' :: escapedInTurn slot.2.toList := by
  induction slots with
  | nil => rfl
  | cons slot slots ih =>
    rw [textOfSlots, ih, escapeInTemplate_eq]
    rfl

/-- **A template is read back, whatever its texts hold.** What is printed has backslashes, backticks and starts of slots
escaped in its texts. It is read, whatever stands behind it, as the same texts and slots; so no text ends the template
or opens a slot. -/
theorem readTemplate?_text (level : Nat) (head : String) (slots : List (Expr × String))
    (h : ∀ slot ∈ slots, '\x7d' ∉ slot.1.text level) (rest : List Char) :
    (Expr.template head slots).text level =
        '\x60' :: escapedInTurn head.toList ++
          (slots.flatMap fun slot => '$' :: '\x7b' :: slot.1.text level ++ '\x7d' :: escapedInTurn slot.2.toList) ++
          ['\x60'] ∧
      readTemplate? ((Expr.template head slots).text level ++ rest) =
        some (⟨head.toList, slots.map fun slot => (slot.1.text level, slot.2.toList)⟩, rest) := by
  have htext : (Expr.template head slots).text level =
      '\x60' :: (escapeInTemplate head.toList ++ textOfSlots level slots) ++ ['\x60'] := rfl
  constructor
  · rw [htext, escapeInTemplate_eq, textOfSlots_eq]
    rfl
  · have hread := readText_escapeInTemplate head.toList (head?_textOfSlots level slots rest)
      (readText_textOfSlots level rest h)
    rw [htext]
    simp only [List.cons_append, List.append_assoc, List.nil_append]
    rw [readTemplate?, hread]
    simp [TemplateText.behind]

/-- The address of an order, over texts that hold all that is escaped: a backslash in front of what opens a slot, a
dollar sign in front of a slot, a backtick behind one and braces. -/
def orderAddress : List (Expr × String) :=
  [(.ident "order", "\x7d\x60/$"), (.call (.ident "String") [.ident "part"], "$\x7bpart\x7d\\")]

/-- It has the two slots that it was made with. -/
theorem readTemplate?_text_orderAddress : (∀ slot ∈ orderAddress, '\x7d' ∉ slot.1.text 0) ∧
    readTemplate? ((Expr.template "\\$\x7border\x7d/$" orderAddress).text 0 ++ ";\x60".toList) =
      some (⟨"\\$\x7border\x7d/$".toList, [("order".toList, "\x7d\x60/$".toList),
        ("String(part)".toList, "$\x7bpart\x7d\\".toList)]⟩, ";\x60".toList) := by
  have hslots : ∀ slot ∈ orderAddress, '\x7d' ∉ slot.1.text 0 := by decide
  exact ⟨hslots, (readTemplate?_text 0 "\\$\x7border\x7d/$" orderAddress hslots ";\x60".toList).2⟩

end Script

end FlowSuite
