import FlowSuite.Proofs.RuntimeExpr.Readers

/-!
# What the readers of runtime expressions ask for

While a text is read, a record is kept of what would have been accepted at the furthest place (`Furthest`). It is sound
(`Furthest.Sound`) if what stands in front of that place can still become an expression (`Viable`), if it still can with
anything of what was wanted behind it (`Expectation.Leads`), and if nothing of that stands there (`Expectation.Met`).

A reader keeps the record sound provided that all it can read is viable where it starts, and it fails only if something
was wanted (`Reader.Reports`). Here this is shown of words, pointers and parts of messages (`Reader.part_reports`), and
of sequences and alternatives of readers. An alternative may be given up and leave its wishes behind: its own texts were
viable too, so that they stay sound.
-/

namespace FlowSuite

namespace RuntimeExpr

/-- Some expression begins with the text. -/
def Viable (text : List Char) : Prop := ∃ more e, parse (text ++ more) = .ok e

theorem Viable.of_append {cs ds : List Char} (h : Viable (cs ++ ds)) : Viable cs := by
  obtain ⟨more, e, hread⟩ := h
  exact ⟨ds ++ more, e, by rw [← List.append_assoc, hread]⟩

end RuntimeExpr

open RuntimeExpr

/-! ## Expectations -/

namespace Expectation

/-- The characters that the description of a class stands for. -/
def inClass (description : String) (c : Char) : Bool :=
  if description = "[!#$%&'*+-.^_\x60|~0-9A-Za-z]" then isTokenChar c
  else if description = "[\\x21-\\x7E]" then isNameChar c
  else if description = "[^/~]" then c ≠ '/' ∧ c ≠ '~'
  else if description = "[01]" then c = '0' ∨ c = '1'
  else false

/-- A text can become an expression with what is expected behind it: with the literal, with every character of the class
(and there are some), or as it stands. -/
def Leads (pre : List Char) : Expectation → Prop
  | literal t _ => Viable (pre ++ t.toList)
  | charClass d => (∃ c, inClass d c) ∧ ∀ c, inClass d c → Viable (pre ++ [c])
  | endOfInput => ∃ e, parse pre = .ok e

/-- A text begins with what is expected. -/
def Met (rest : List Char) : Expectation → Prop
  | literal t true => BeginsWith t.toList rest
  | literal t false => t.toList <+: rest
  | charClass d => ∃ c ∈ rest.head?, inClass d c
  | endOfInput => rest = []

theorem inClass_token : inClass "[!#$%&'*+-.^_\x60|~0-9A-Za-z]" = isTokenChar := by
  funext c
  simp [inClass]

theorem inClass_name : inClass "[\\x21-\\x7E]" = isNameChar := by
  funext c
  simp [inClass]

theorem inClass_plain {c : Char} : inClass "[^/~]" c ↔ c ≠ '/' ∧ c ≠ '~' := by simp [inClass]

theorem inClass_digit {c : Char} : inClass "[01]" c ↔ c = '0' ∨ c = '1' := by simp [inClass]

theorem met_charClass_cons {description : String} {c : Char} {cs : List Char} :
    (charClass description).Met (c :: cs) ↔ inClass description c := by
  simp [Met]

theorem Leads.viable {pre : List Char} {x : Expectation} (h : x.Leads pre) : Viable pre := by
  cases x with
  | literal => exact h.of_append
  | charClass =>
    obtain ⟨⟨c, hc⟩, hall⟩ := h
    exact (hall c hc).of_append
  | endOfInput =>
    obtain ⟨e, he⟩ := h
    exact ⟨[], e, by rw [List.append_nil, he]⟩

end Expectation

/-! ## Bytes -/

theorem utf8Size_toLower (c : Char) : c.toLower.utf8Size = c.utf8Size := by
  unfold Char.toLower
  split
  · next h =>
    have hupper : c.val.toNat ≤ 90 := UInt32.le_iff_toNat_le.mp h.2
    have hlower : (c.val + ('a'.val - 'A'.val)).toNat ≤ 127 := by
      rw [UInt32.toNat_add, show ('a'.val - 'A'.val).toNat = 32 from rfl]
      omega
    have hascii : c.val.toNat ≤ 127 := by omega
    rw [Char.utf8Size, Char.utf8Size]
    simp only
    rw [if_pos (UInt32.le_iff_toNat_le.mpr hlower), if_pos (UInt32.le_iff_toNat_le.mpr hascii)]
  · rfl

theorem byteCount_map_toLower (cs : List Char) : Text.byteCount (cs.map Char.toLower) = Text.byteCount cs := by
  induction cs with
  | nil => rfl
  | cons c cs ih => rw [List.map_cons, Text.byteCount_cons, Text.byteCount_cons, utf8Size_toLower, ih]

theorem SameLetters.byteCount_eq {cs ds : List Char} (h : SameLetters cs ds) :
    Text.byteCount cs = Text.byteCount ds := by
  rw [← byteCount_map_toLower cs, h, byteCount_map_toLower]

theorem SameLetters.length_eq {cs ds : List Char} (h : SameLetters cs ds) : cs.length = ds.length := by
  simpa using congrArg List.length h

/-- A text has one place at an offset. -/
theorem Text.append_inj {a b c d : List Char} (h : a ++ b = c ++ d) (hbytes : byteCount a = byteCount c) :
    a = c ∧ b = d := by
  have hcut := cutAt_byteCount a b
  rw [h, hbytes, cutAt_byteCount] at hcut
  exact ⟨congrArg Prod.fst hcut.symm, congrArg Prod.snd hcut.symm⟩

/-! ## Records -/

/-- A record of wishes between the two parts of a text: the first part can become an expression with any of them, and
the second does not begin with any. -/
structure Furthest.Between (pre rest : List Char) (w : Furthest) : Prop where
  offset_eq : w.offset = Text.byteCount pre
  viable : Viable pre
  nodup : w.wanted.Nodup
  leads : ∀ x ∈ w.wanted, x.Leads pre
  unmet : ∀ x ∈ w.wanted, ¬x.Met rest
  /-- Only at the start can there be no wish. -/
  offset_eq_zero : w.wanted = [] → w.offset = 0

/-- A record of wishes at a place in the text. -/
def Furthest.Sound (text : List Char) (w : Furthest) : Prop := ∃ pre rest, text = pre ++ rest ∧ w.Between pre rest

/-- A cursor stands in a text behind a part of it. -/
structure RuntimeExpr.Cursor.At (text pre : List Char) (c : Cursor) : Prop where
  text_eq : text = pre ++ c.rest
  offset_eq : c.offset = Text.byteCount pre

theorem RuntimeExpr.Cursor.At.next {text pre rest : List Char} {n : Nat} {c : Char}
    (h : Cursor.At text pre ⟨c :: rest, n⟩) : Cursor.At text (pre ++ [c]) ⟨rest, n + c.utf8Size⟩ := by
  have hoffset := h.offset_eq
  simp only at hoffset
  exact ⟨by simp [h.text_eq], by simp [hoffset]⟩

/-- A wish is added to those at the same place. -/
theorem Furthest.Between.want {pre rest : List Char} {w : Furthest} {x : Expectation} (h : w.Between pre rest)
    (hleads : x.Leads pre) (hunmet : ¬x.Met rest) : (w.want w.offset x).Between pre rest := by
  unfold Furthest.want
  rw [if_neg (Nat.lt_irrefl _), if_neg (Nat.lt_irrefl _)]
  split
  · exact h
  · next hnew =>
    constructor
    case offset_eq => exact h.offset_eq
    case viable => exact h.viable
    case nodup =>
      refine List.nodup_append.mpr ⟨h.nodup, by simp, ?_⟩
      rintro y hy _ hx rfl
      exact hnew (List.mem_singleton.mp hx ▸ hy)
    case leads => exact List.forall_mem_append.mpr ⟨h.leads, by simpa using hleads⟩
    case unmet => exact List.forall_mem_append.mpr ⟨h.unmet, by simpa using hunmet⟩
    case offset_eq_zero => simp

/-- A wish further on stands alone. -/
theorem Furthest.between_singleton {pre rest : List Char} {x : Expectation} (hleads : x.Leads pre)
    (hunmet : ¬x.Met rest) : Furthest.Between pre rest ⟨Text.byteCount pre, [x]⟩ where
  offset_eq := rfl
  viable := hleads.viable
  nodup := by simp
  leads := by simpa using hleads
  unmet := by simpa using hunmet
  offset_eq_zero := by simp

/-- **A wish keeps a record sound** that leads on where it is noted and is not met there. -/
theorem Furthest.Sound.want {text pre : List Char} {c : Cursor} {w : Furthest} {x : Expectation} (h : w.Sound text)
    (hc : c.At text pre) (hleads : x.Leads pre) (hunmet : ¬x.Met c.rest) :
    (w.want c.offset x).Sound text ∧ (w.want c.offset x).wanted ≠ [] := by
  obtain ⟨pre', rest', htext, hw⟩ := h
  rcases Nat.lt_trichotomy c.offset w.offset with hlt | heq | hgt
  · have hne : w.wanted ≠ [] := fun hnil => by
      have hzero := hw.offset_eq_zero hnil
      omega
    rw [Furthest.want, if_pos hlt]
    exact ⟨⟨pre', rest', htext, hw⟩, hne⟩
  · have hbytes : Text.byteCount pre' = Text.byteCount pre := by rw [← hw.offset_eq, ← hc.offset_eq, heq]
    obtain ⟨rfl, rfl⟩ := Text.append_inj (htext.symm.trans hc.text_eq) hbytes
    have hmem : x ∈ (w.want w.offset x).wanted := by
      unfold Furthest.want
      rw [if_neg (Nat.lt_irrefl _), if_neg (Nat.lt_irrefl _)]
      split
      · assumption
      · simp
    rw [heq]
    exact ⟨⟨pre', c.rest, htext, hw.want hleads hunmet⟩, List.ne_nil_of_mem hmem⟩
  · rw [Furthest.want, if_neg (Nat.lt_asymm hgt), if_pos hgt, hc.offset_eq]
    exact ⟨⟨pre, c.rest, hc.text_eq, Furthest.between_singleton hleads hunmet⟩, by simp⟩

namespace RuntimeExpr.Reader

variable {α β : Type} {text pre : List Char} {R S : List Char → α → Prop} {r s : Reader α}

/-! ## Readers -/

/-- What comes of reading at a place of a text: a value of what was read there, or nothing and a wish, with a sound
record either way. -/
inductive Outcome (text pre : List Char) (R : List Char → α → Prop) : Option (α × Cursor) × Furthest → Prop
  | read {mid : List Char} {a : α} {c : Cursor} {w : Furthest} : c.At text (pre ++ mid) → R mid a → w.Sound text →
      Outcome text pre R (some (a, c), w)
  | failed {w : Furthest} : w.Sound text → w.wanted ≠ [] → Outcome text pre R (none, w)

/-- A reader reports all that it can read, where that is viable. -/
def Reports (r : Reader α) (R : List Char → α → Prop) : Prop :=
  ∀ ⦃text pre : List Char⦄ ⦃c : Cursor⦄ ⦃w : Furthest⦄, c.At text pre → (∀ cs a, R cs a → Viable (pre ++ cs)) →
    w.Sound text → Outcome text pre R (r c w)

theorem Outcome.imp {out : Option (α × Cursor) × Furthest} (h : Outcome text pre R out)
    (hRS : ∀ cs a, R cs a → S cs a) : Outcome text pre S out := by
  cases h with
  | read hc ha hw => exact .read hc (hRS _ _ ha) hw
  | failed hw hne => exact .failed hw hne

theorem Reports.congr (h : r.Reports R) (hRS : ∀ cs a, R cs a ↔ S cs a) : r.Reports S := by
  have heq : R = S := funext fun cs => funext fun a => propext (hRS cs a)
  rwa [← heq]

theorem Reports.map (h : r.Reports R) (f : α → β) : (r.map f).Reports fun cs b => ∃ a, R cs a ∧ f a = b := by
  intro text pre c w hc hviable hw
  have hr := h hc (fun cs a ha => hviable cs (f a) ⟨a, ha, rfl⟩) hw
  unfold Reader.map
  generalize r c w = out at hr
  cases hr with
  | read hc' ha hw' => exact .read hc' ⟨_, ha, rfl⟩ hw'
  | failed hw' hne => exact .failed hw' hne

theorem Reports.orElse (h : r.Reports R) (h' : s.Reports S) : (r.orElse s).Reports fun cs a => R cs a ∨ S cs a := by
  intro text pre c w hc hviable hw
  have hr := h hc (fun cs a ha => hviable cs a (.inl ha)) hw
  unfold Reader.orElse
  generalize r c w = out at hr
  cases hr with
  | read hc' ha hw' => exact .read hc' (.inl ha) hw'
  | failed hw' _ =>
    exact (h' hc (fun cs a ha => hviable cs a (.inr ha)) hw').imp fun _ _ => .inr

/-- A keyword is asked for where it is missing, and behind it what follows. -/
theorem Reports.behind (h : r.Reports R) (keyword : String) (hR : ∃ cs a, R cs a) :
    ((literal keyword true).andThen r).Reports (Behind keyword.toList R) := by
  intro text pre c w hc hviable hw
  unfold andThen literal
  cases hrest : afterLiteral? true keyword.toList c.rest with
  | none =>
    obtain ⟨cs, a, ha⟩ := hR
    have hwhole := hviable _ a ⟨keyword.toList, cs, rfl, rfl, ha⟩
    rw [← List.append_assoc] at hwhole
    have hleads : (Expectation.literal keyword true).Leads pre := hwhole.of_append
    obtain ⟨hsound, hne⟩ := hw.want hc hleads (afterLiteral?_eq_none_iff.mp hrest)
    exact .failed hsound hne
  | some rest =>
    obtain ⟨as, heq, has⟩ := afterLiteral?_eq_some_iff.mp hrest
    have hc' : Cursor.At text (pre ++ as) ⟨rest, c.offset + Text.byteCount keyword.toList⟩ :=
      ⟨by rw [hc.text_eq, heq, List.append_assoc],
        by rw [hc.offset_eq, Text.byteCount_append, has.byteCount_eq]⟩
    have hviable' : ∀ cs a, R cs a → Viable (pre ++ as ++ cs) := fun cs a ha => by
      rw [List.append_assoc]
      exact hviable _ a ⟨as, cs, rfl, has, ha⟩
    have hr := h hc' hviable' hw
    simp only
    generalize r _ w = out at hr
    cases hr with
    | @read mid _ _ _ hc'' ha hw' =>
      rw [List.append_assoc] at hc''
      exact .read hc'' ⟨as, mid, rfl, has, ha⟩ hw'
    | failed hw' hne => exact .failed hw' hne

/-! ## Words -/

theorem word_singleton {inClass : Char → Bool} {c : Char} (h : inClass c) : Word inClass (String.singleton c) :=
  ⟨by simp, by simpa using h⟩

/-- A word is read as far as it goes, and another character of its class is asked for behind it. -/
theorem run_reports {inClass : Char → Bool} {description : String}
    (hclass : Expectation.inClass description = inClass) (hsome : ∃ c, inClass c) :
    (run inClass description).Reports fun cs word => cs = word.toList ∧ Word inClass word := by
  intro text pre c w hc hviable hw
  have hsplit := List.takeWhile_append_dropWhile (p := inClass) (l := c.rest)
  have hword : ∀ d ∈ c.rest.takeWhile inClass, inClass d := fun d hd => List.mem_takeWhile_imp hd
  have hc' : Cursor.At text (pre ++ c.rest.takeWhile inClass)
      ⟨c.rest.dropWhile inClass, c.offset + Text.byteCount (c.rest.takeWhile inClass)⟩ :=
    ⟨by rw [List.append_assoc, hsplit, hc.text_eq], by rw [hc.offset_eq, Text.byteCount_append]⟩
  -- a word stays one with another character of the class behind it
  have hleads : (Expectation.charClass description).Leads (pre ++ c.rest.takeWhile inClass) := by
    refine ⟨hclass ▸ hsome, fun d hd => ?_⟩
    rw [hclass] at hd
    rw [List.append_assoc]
    refine hviable _ (String.ofList (c.rest.takeWhile inClass ++ [d])) ⟨by simp, by simp, fun e he => ?_⟩
    rw [String.toList_ofList, List.mem_append, List.mem_singleton] at he
    rcases he with he | rfl
    · exact hword e he
    · exact hd
  have hunmet : ¬(Expectation.charClass description).Met (c.rest.dropWhile inClass) := by
    rintro ⟨d, hd, hin⟩
    have hnot := List.head?_dropWhile_not inClass c.rest
    rw [Option.mem_def.mp hd] at hnot
    rw [hclass] at hin
    exact Bool.noConfusion (hin.symm.trans hnot)
  obtain ⟨hsound, hne⟩ := hw.want hc' hleads hunmet
  unfold run
  simp only
  split
  · exact .failed hsound hne
  · next hempty =>
    exact .read hc' ⟨by simp, by simpa using hempty, by simpa using hword⟩ hsound

/-! ## Pointers -/

open Pointer

/-- Whatever the rest of a key and the keys behind it are, the text with them is viable. -/
def KeysViable (pre : List Char) : Prop := ∀ key keys, Viable (pre ++ (encodeKey key ++ renderKeys keys))

namespace KeysViable

variable (h : KeysViable pre)
include h

theorem char {c : Char} (htilde : c ≠ '~') (hslash : c ≠ '/') : KeysViable (pre ++ [c]) := by
  intro key keys
  have hkey := h (c :: key) keys
  rwa [encodeKey_cons htilde hslash, List.cons_append, List.append_cons] at hkey

theorem escape {d : Char} (hd : d = '0' ∨ d = '1') : KeysViable (pre ++ ['~'] ++ [d]) := by
  intro key keys
  rcases hd with rfl | rfl
  · simpa using h ('~' :: key) keys
  · simpa using h ('/' :: key) keys

theorem slash : KeysViable (pre ++ ['/']) := by
  intro key keys
  simpa [encodeKey] using h [] (key :: keys)

theorem leads_slash : (Expectation.literal "/" false).Leads pre := (h.slash [] []).of_append

theorem leads_tilde : (Expectation.literal "~" false).Leads pre := (h.escape (.inl rfl) [] []).of_append.of_append

theorem leads_char : (Expectation.charClass "[^/~]").Leads pre := by
  refine ⟨⟨'a', by decide⟩, fun c hc => ?_⟩
  rw [Expectation.inClass_plain] at hc
  exact (h.char hc.2 hc.1 [] []).of_append

theorem leads_digit : (Expectation.charClass "[01]").Leads (pre ++ ['~']) := by
  refine ⟨⟨'0', by decide⟩, fun c hc => ?_⟩
  rw [Expectation.inClass_digit] at hc
  exact (h.escape hc [] []).of_append

end KeysViable

/-- What is read of keys keeps the record sound, wherever any keys are viable. -/
theorem keyAndKeys_reports : ∀ {cs : List Char} {n : Nat} {w : Furthest} {pre : List Char},
    Cursor.At text pre ⟨cs, n⟩ → KeysViable pre → w.Sound text →
      (keyAndKeys cs n w).2.2.Sound text ∧ ∃ mid, (keyAndKeys cs n w).2.1.At text (pre ++ mid)
  | [], n, w, pre, hc, hviable, hw => by
    have hchar := (hw.want hc hviable.leads_char (by simp [Expectation.Met])).1
    have htilde := (hchar.want hc hviable.leads_tilde (by simp [Expectation.Met])).1
    exact ⟨(htilde.want hc hviable.leads_slash (by simp [Expectation.Met])).1, [], by rwa [List.append_nil]⟩
  | c :: cs, n, w, pre, hc, hviable, hw => by
    by_cases hplain : c ≠ '/' ∧ c ≠ '~'
    · obtain ⟨hsound, mid, hat⟩ := keyAndKeys_reports hc.next (hviable.char hplain.2 hplain.1) hw
      rw [keyAndKeys_cons hplain.2 hplain.1]
      exact ⟨hsound, [c] ++ mid, by rwa [← List.append_assoc]⟩
    have hunmet : ¬(Expectation.charClass "[^/~]").Met (c :: cs) := by
      rwa [Expectation.met_charClass_cons, Expectation.inClass_plain]
    have hchar := (hw.want hc hviable.leads_char hunmet).1
    by_cases hslash : c = '/'
    · subst hslash
      have htilde := (hchar.want hc hviable.leads_tilde (by simp [Expectation.Met])).1
      obtain ⟨hsound, mid, hat⟩ := keyAndKeys_reports hc.next hviable.slash htilde
      exact ⟨hsound, ['/'] ++ mid, by rwa [← List.append_assoc]⟩
    obtain rfl : c = '~' := by
      by_contra htilde
      exact hplain ⟨hslash, htilde⟩
    match cs with
    | [] =>
      have hdigit := (hchar.want hc.next hviable.leads_digit (by simp [Expectation.Met])).1
      exact ⟨(hdigit.want hc hviable.leads_slash (by simp [Expectation.Met])).1, [], by rwa [List.append_nil]⟩
    | d :: cs =>
      by_cases hd : d = '0' ∨ d = '1'
      · have hc' : Cursor.At text (pre ++ ['~'] ++ [d]) ⟨cs, n + 2⟩ := by
          rcases hd with rfl | rfl <;> exact hc.next.next
        obtain ⟨hsound, mid, hat⟩ := keyAndKeys_reports hc' (hviable.escape hd) hchar
        rw [List.append_assoc, List.append_assoc] at hat
        rcases hd with rfl | rfl
        · exact ⟨hsound, _, hat⟩
        · exact ⟨hsound, _, hat⟩
      · have hunmet' : ¬(Expectation.charClass "[01]").Met (d :: cs) := by
          rwa [Expectation.met_charClass_cons, Expectation.inClass_digit]
        have hdigit := (hchar.want hc.next hviable.leads_digit hunmet').1
        have hslash := (hdigit.want hc hviable.leads_slash (by simp [Expectation.Met])).1
        rw [keyAndKeys]
        simp only [if_neg hd]
        exact ⟨hslash, [], by rwa [List.append_nil]⟩

/-- A pointer is read as far as it goes, wherever any pointer is viable. -/
theorem pointer_reports {c : Cursor} {w : Furthest} (hc : c.At text pre)
    (hviable : ∀ p : Pointer, Viable (pre ++ p.render)) (hw : w.Sound text) :
    (pointer c w).2.2.Sound text ∧ (pointer c w).2.1.At text (pre ++ (pointer c w).1.render) := by
  obtain ⟨rest, n⟩ := c
  by_cases h : ∃ cs, rest = '/' :: cs
  · obtain ⟨cs, rfl⟩ := h
    have hkeys : KeysViable (pre ++ ['/']) := by
      intro key keys
      simpa [Pointer.render, Function.comp_def] using hviable ⟨(key :: keys).map String.ofList⟩
    obtain ⟨hsound, mid, hat⟩ := keyAndKeys_reports (n := n + 1) hc.next hkeys hw
    obtain ⟨key, keys, hread, hcs⟩ := keyAndKeys_sound cs (n + 1) w
    have hmid : mid = encodeKey key ++ renderKeys keys := by
      have htext := hc.next.text_eq.symm.trans hat.text_eq
      rw [List.append_assoc _ mid, List.append_cancel_left_eq] at htext
      exact List.append_cancel_right (htext.symm.trans hcs)
    have hrender : (pointer ⟨'/' :: cs, n⟩ w).1.render = '/' :: mid := by
      rw [pointer_slash, hread, hmid]
      simp [Pointer.render, keyOf_encodeKey, Function.comp_def]
    rw [hrender, List.append_cons]
    exact ⟨hsound, hat⟩
  · have hleads : (Expectation.literal "/" false).Leads pre := hviable ⟨[""]⟩
    have hunmet : ¬(Expectation.literal "/" false).Met rest := by
      rintro ⟨cs, heq⟩
      exact h ⟨cs, heq.symm⟩
    rw [pointer_of_ne fun cs heq => h ⟨cs, heq⟩]
    exact ⟨(hw.want hc hleads hunmet).1, by rwa [show Pointer.render ⟨[]⟩ = [] from rfl, List.append_nil]⟩

/-! ## Parts of messages -/

theorem bodyPointer_reports : bodyPointer.Reports fun cs part => (∃ p, part = .body p) ∧ cs = part.content := by
  intro text pre c w hc hviable hw
  obtain ⟨rest, n⟩ := c
  by_cases h : ∃ cs, rest = '#' :: cs
  · obtain ⟨cs, rfl⟩ := h
    have hpointer : ∀ p : Pointer, Viable (pre ++ ['#'] ++ p.render) := fun p => by
      rw [List.append_assoc]
      exact hviable _ (.body (some p)) ⟨⟨_, rfl⟩, rfl⟩
    obtain ⟨hsound, hat⟩ := pointer_reports (c := ⟨cs, n + 1⟩) hc.next hpointer hw
    rw [List.append_assoc] at hat
    exact .read hat ⟨⟨_, rfl⟩, rfl⟩ hsound
  · have hleads : (Expectation.literal "#" false).Leads pre := hviable _ (.body (some ⟨[]⟩)) ⟨⟨_, rfl⟩, rfl⟩
    have hunmet : ¬(Expectation.literal "#" false).Met rest := by
      rintro ⟨cs, heq⟩
      exact h ⟨cs, heq.symm⟩
    rw [bodyPointer_of_ne fun cs heq => h ⟨cs, heq⟩]
    rw [← List.append_nil pre] at hc
    exact .read hc ⟨⟨_, rfl⟩, rfl⟩ (hw.want (by rwa [List.append_nil] at hc) hleads hunmet).1

theorem token_reports : token.Reports fun cs name => cs = name.toList ∧ Word isTokenChar name :=
  run_reports Expectation.inClass_token ⟨'a', by decide⟩

theorem name_reports : name.Reports fun cs name => cs = name.toList ∧ Word isNameChar name :=
  run_reports Expectation.inClass_name ⟨'a', by decide⟩

/-- A part of a message is asked for as what spells it. -/
theorem part_reports : part.Reports fun cs p => p.WellFormed ∧ p.Spells cs := by
  have hword : ∀ {inClass : Char → Bool}, inClass 'a' → ∃ cs word, cs = String.toList word ∧ Word inClass word :=
    fun ha => ⟨_, _, rfl, word_singleton ha⟩
  have hheader := (token_reports.behind "header." (hword (by decide))).map MessagePart.header
  have hquery := (name_reports.behind "query." (hword (by decide))).map MessagePart.query
  have hpath := (name_reports.behind "path." (hword (by decide))).map MessagePart.path
  have hbody := bodyPointer_reports.behind "body" ⟨_, .body none, ⟨_, rfl⟩, rfl⟩
  exact (hheader.orElse (hquery.orElse (hpath.orElse hbody))).congr part_alternatives_iff

end RuntimeExpr.Reader

end FlowSuite
