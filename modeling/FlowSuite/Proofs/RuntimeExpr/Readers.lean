import Mathlib.Data.List.TakeWhile
import FlowSuite.Proofs.RuntimeExpr.Canonical

/-!
# What the readers of runtime expressions read

A reader is described by the whole texts it reads and what it makes of them (`Reader.ReadsAs`). That says nothing of the
offset it starts at and nothing of the record of wishes, so the descriptions of a sequence and of an alternative follow
from those of their parts. An alternative needs that its second reader reads no text the first one would go wrong on:
here every alternative starts with a keyword of its own.
-/

namespace FlowSuite.RuntimeExpr

/-! ## Keywords -/

theorem afterLiteral?_cons (l c : Char) (ls cs : List Char) :
    afterLiteral? true (l :: ls) (c :: cs) = if c.toLower = l.toLower then afterLiteral? true ls cs else none := by
  rw [afterLiteral?]
  congr 1
  simp only [true_and, eq_iff_iff, or_iff_right_iff_imp]
  rintro rfl
  rfl

theorem afterLiteral?_eq_some_iff {keyword cs rest : List Char} :
    afterLiteral? true keyword cs = some rest ↔ ∃ as, cs = as ++ rest ∧ SameLetters as keyword := by
  induction keyword generalizing cs with
  | nil => simp [afterLiteral?, SameLetters, eq_comm]
  | cons l ls ih =>
    cases cs with
    | nil => simp [afterLiteral?, SameLetters]
    | cons c cs =>
      rw [afterLiteral?_cons]
      split
      · next hc =>
        rw [ih]
        constructor
        · rintro ⟨as, rfl, has⟩
          exact ⟨c :: as, rfl, by rw [SameLetters, List.map_cons, List.map_cons, hc, has]⟩
        · rintro ⟨as, heq, has⟩
          cases as with
          | nil => cases has
          | cons a as =>
            cases heq
            exact ⟨as, rfl, (List.cons.inj has).2⟩
      · next hc =>
        refine iff_of_false (by simp) ?_
        rintro ⟨as, heq, has⟩
        cases as with
        | nil => cases has
        | cons a as =>
          cases heq
          exact hc (List.cons.inj has).1

theorem afterLiteral?_eq_none_iff {keyword cs : List Char} :
    afterLiteral? true keyword cs = none ↔ ¬BeginsWith keyword cs := by
  rw [beginsWith_iff, Option.eq_none_iff_forall_ne_some]
  simp only [ne_eq, afterLiteral?_eq_some_iff]
  exact ⟨fun h ⟨as, rest, hr⟩ => h rest ⟨as, hr⟩, fun h rest ⟨as, hr⟩ => h ⟨as, rest, hr⟩⟩

namespace Reader

variable {α β : Type}

/-- Reads a whole text as a value exactly if the two are related, wherever the text stands. -/
def ReadsAs (r : Reader α) (R : List Char → α → Prop) : Prop :=
  ∀ c w a, (∃ n, (r c w).1 = some (a, ⟨[], n⟩)) ↔ R c.rest a

theorem ReadsAs.map {r : Reader α} {R : List Char → α → Prop} (h : r.ReadsAs R) (f : α → β) :
    (r.map f).ReadsAs fun cs b => ∃ a, R cs a ∧ f a = b := by
  intro c w b
  have hr := h c w
  unfold Reader.map
  generalize r c w = out at hr ⊢
  obtain ⟨found, w⟩ := out
  cases found with
  | none =>
    refine iff_of_false (by simp) ?_
    rintro ⟨a, ha, _⟩
    obtain ⟨n, heq⟩ := (hr a).mpr ha
    cases heq
  | some found =>
    obtain ⟨a, behind⟩ := found
    constructor
    · rintro ⟨n, heq⟩
      cases heq
      exact ⟨a, (hr a).mp ⟨_, rfl⟩, rfl⟩
    · rintro ⟨b, hb, rfl⟩
      obtain ⟨n, heq⟩ := (hr b).mpr hb
      cases heq
      exact ⟨_, rfl⟩

theorem ReadsAs.congr {r : Reader α} {R S : List Char → α → Prop} (h : r.ReadsAs R) (hRS : ∀ cs a, R cs a ↔ S cs a) :
    r.ReadsAs S :=
  fun c w a => (h c w a).trans (hRS c.rest a)

/-- Reads a keyword and then something else. -/
def Behind (keyword : List Char) (R : List Char → α → Prop) (cs : List Char) (a : α) : Prop :=
  ∃ as rest, cs = as ++ rest ∧ SameLetters as keyword ∧ R rest a

theorem ReadsAs.behind {r : Reader α} {R : List Char → α → Prop} (h : r.ReadsAs R) (keyword : String) :
    ((literal keyword true).andThen r).ReadsAs (Behind keyword.toList R) := by
  intro c w a
  unfold andThen literal
  cases hrest : afterLiteral? true keyword.toList c.rest with
  | none =>
    refine iff_of_false (by simp) ?_
    rintro ⟨as, rest, heq, has, _⟩
    exact afterLiteral?_eq_none_iff.mp hrest (beginsWith_iff.mpr ⟨as, rest, heq, has⟩)
  | some rest =>
    obtain ⟨as, heq, has⟩ := afterLiteral?_eq_some_iff.mp hrest
    refine (h _ _ a).trans ⟨fun hr => ⟨as, rest, heq, has, hr⟩, ?_⟩
    rintro ⟨bs, rest', heq', hbs, hr⟩
    rw [afterLiteral?_eq_some_iff.mpr ⟨bs, heq', hbs⟩] at hrest
    cases hrest
    exact hr

theorem Behind.beginsWith {keyword cs : List Char} {R : List Char → α → Prop} {a : α} (h : Behind keyword R cs a) :
    BeginsWith keyword cs := by
  obtain ⟨as, rest, heq, has, _⟩ := h
  exact beginsWith_iff.mpr ⟨as, rest, heq, has⟩

/-- An alternative that is introduced by a keyword leaves the texts without that keyword to the next one. -/
theorem ReadsAs.orElse {r s : Reader α} {R S : List Char → α → Prop} {keyword : String} {f : β → α} {p : Reader β}
    (hr : r = ((literal keyword true).andThen p).map f) (h : r.ReadsAs R) (h' : s.ReadsAs S)
    (hs : ∀ cs a, S cs a → ¬BeginsWith keyword.toList cs) :
    (r.orElse s).ReadsAs fun cs a => R cs a ∨ S cs a := by
  intro c w a
  have hnone : ¬BeginsWith keyword.toList c.rest → (r c w).1 = none := by
    intro hb
    subst hr
    unfold Reader.map andThen literal
    rw [afterLiteral?_eq_none_iff.mpr hb]
  have hra := h c w a
  unfold Reader.orElse
  generalize r c w = out at hra hnone ⊢
  obtain ⟨found, w⟩ := out
  cases found with
  | some found =>
    refine hra.trans ⟨.inl, ?_⟩
    rintro (hr | hs')
    · exact hr
    · cases hnone (hs _ _ hs')
  | none =>
    refine (h' c w a).trans ⟨.inr, ?_⟩
    rintro (hr | hs')
    · obtain ⟨n, heq⟩ := hra.mpr hr
      cases heq
    · exact hs'

end Reader

open Reader

/-! ## Words and pointers -/

theorem run_readsAs (inClass : Char → Bool) (description : String) :
    (run inClass description).ReadsAs fun cs word => cs = word.toList ∧ Word inClass word := by
  intro c w word
  unfold run
  simp only [List.isEmpty_iff]
  constructor
  · rintro ⟨n, heq⟩
    split at heq
    · cases heq
    · next hne =>
      simp only [Option.some.injEq, Prod.mk.injEq, Cursor.mk.injEq] at heq
      obtain ⟨rfl, hrest, _⟩ := heq
      have hall := List.takeWhile_append_dropWhile (p := inClass) (l := c.rest)
      rw [hrest, List.append_nil] at hall
      refine ⟨by simp [hall], by simpa using hne, fun d hd => ?_⟩
      rw [String.toList_ofList] at hd
      exact List.mem_takeWhile_imp hd
  · rintro ⟨heq, hne, hall⟩
    have htake : c.rest.takeWhile inClass = c.rest := List.takeWhile_eq_self_iff.mpr (heq ▸ hall)
    have hdrop : c.rest.dropWhile inClass = [] := List.dropWhile_eq_nil_iff.mpr (heq ▸ hall)
    rw [htake, hdrop, if_neg (heq ▸ hne), heq, String.ofList_toList]
    exact ⟨_, rfl⟩

open Pointer

theorem keyAndKeys_escape {d : Char} (hd : d = '0' ∨ d = '1') (cs : List Char) (n : Nat) (w : Furthest) :
    ∃ w', keyAndKeys ('~' :: d :: cs) n w = (('~' :: d :: (keyAndKeys cs (n + 2) w').1.1,
      (keyAndKeys cs (n + 2) w').1.2), (keyAndKeys cs (n + 2) w').2) := by
  rcases hd with rfl | rfl
  · exact ⟨_, rfl⟩
  · exact ⟨_, rfl⟩

theorem keyAndKeys_slash (cs : List Char) (n : Nat) (w : Furthest) :
    ∃ w', keyAndKeys ('/' :: cs) n w = (([], (keyAndKeys cs (n + 1) w').1.1 :: (keyAndKeys cs (n + 1) w').1.2),
      (keyAndKeys cs (n + 1) w').2) :=
  ⟨_, rfl⟩

theorem keyAndKeys_cons {c : Char} (htilde : c ≠ '~') (hslash : c ≠ '/') (cs : List Char) (n : Nat) (w : Furthest) :
    keyAndKeys (c :: cs) n w = ((c :: (keyAndKeys cs (n + c.utf8Size) w).1.1,
      (keyAndKeys cs (n + c.utf8Size) w).1.2), (keyAndKeys cs (n + c.utf8Size) w).2) := by
  rw [keyAndKeys]
  · rw [if_neg htilde, if_neg hslash]
  · exact fun _ _ hc _ => htilde hc

/-- Every key that is read is the spelling of a key, and the keys with their slashes are what was passed. -/
theorem keyAndKeys_sound : ∀ (cs : List Char) (n : Nat) (w : Furthest), ∃ (key : List Char) (keys : List (List Char)),
    (keyAndKeys cs n w).1 = (encodeKey key, keys.map encodeKey) ∧
      cs = encodeKey key ++ renderKeys keys ++ (keyAndKeys cs n w).2.1.rest
  | [], _, _ => ⟨[], [], rfl, rfl⟩
  | c :: cs, n, w => by
    by_cases htilde : c = '~'
    · subst htilde
      match cs with
      | [] => exact ⟨[], [], rfl, rfl⟩
      | d :: cs =>
        by_cases hd : d = '0' ∨ d = '1'
        · obtain ⟨w', heq⟩ := keyAndKeys_escape hd cs n w
          obtain ⟨key, keys, hread, hcs⟩ := keyAndKeys_sound cs (n + 2) w'
          rw [heq, hread]
          rcases hd with rfl | rfl
          · exact ⟨'~' :: key, keys, rfl, congrArg ('~' :: '0' :: ·) hcs⟩
          · exact ⟨'/' :: key, keys, rfl, congrArg ('~' :: '1' :: ·) hcs⟩
        · refine ⟨[], [], ?_⟩
          simp only [keyAndKeys, if_neg hd]
          exact ⟨rfl, rfl⟩
    by_cases hslash : c = '/'
    · subst hslash
      obtain ⟨w', heq⟩ := keyAndKeys_slash cs n w
      obtain ⟨key, keys, hread, hcs⟩ := keyAndKeys_sound cs (n + 1) w'
      rw [heq, hread]
      exact ⟨[], key :: keys, rfl, congrArg ('/' :: ·) hcs⟩
    · obtain ⟨key, keys, hread, hcs⟩ := keyAndKeys_sound cs (n + c.utf8Size) w
      rw [keyAndKeys_cons htilde hslash, hread]
      refine ⟨c :: key, keys, ?_, ?_⟩
      · rw [encodeKey_cons htilde hslash]
      · rw [encodeKey_cons htilde hslash]
        exact congrArg (c :: ·) hcs

/-- Keys are read as they are written. -/
theorem keyAndKeys_complete : ∀ (key : List Char) (keys : List (List Char)) (n : Nat) (w : Furthest),
    ∃ m w', keyAndKeys (encodeKey key ++ renderKeys keys) n w =
      ((encodeKey key, keys.map encodeKey), ⟨[], m⟩, w')
  | [], [], _, _ => ⟨_, _, rfl⟩
  | [], key :: keys, n, w => by
    obtain ⟨w', heq⟩ := keyAndKeys_slash (encodeKey key ++ renderKeys keys) n w
    obtain ⟨m, w'', hread⟩ := keyAndKeys_complete key keys (n + 1) w'
    exact ⟨m, w'', by rw [renderKeys_cons]; exact heq.trans (by rw [hread]; rfl)⟩
  | c :: key, keys, n, w => by
    by_cases htilde : c = '~'
    · subst htilde
      obtain ⟨w', heq⟩ := keyAndKeys_escape (.inl rfl) (encodeKey key ++ renderKeys keys) n w
      obtain ⟨m, w'', hread⟩ := keyAndKeys_complete key keys (n + 2) w'
      exact ⟨m, w'', by rw [encodeKey_tilde]; exact heq.trans (by rw [hread])⟩
    by_cases hslash : c = '/'
    · subst hslash
      obtain ⟨w', heq⟩ := keyAndKeys_escape (.inr rfl) (encodeKey key ++ renderKeys keys) n w
      obtain ⟨m, w'', hread⟩ := keyAndKeys_complete key keys (n + 2) w'
      exact ⟨m, w'', by rw [encodeKey_slash]; exact heq.trans (by rw [hread])⟩
    · obtain ⟨m, w', hread⟩ := keyAndKeys_complete key keys (n + c.utf8Size) w
      refine ⟨m, w', ?_⟩
      rw [encodeKey_cons htilde hslash, List.cons_append, keyAndKeys_cons htilde hslash, hread]

theorem keyOf_encodeKey (key : List Char) : keyOf (encodeKey key) = String.ofList key := by
  rw [keyOf, decodeKey_encodeKey, Option.getD_some]

theorem pointer_slash (cs : List Char) (n : Nat) (w : Furthest) :
    pointer ⟨'/' :: cs, n⟩ w = (⟨((keyAndKeys cs (n + 1) w).1.1 :: (keyAndKeys cs (n + 1) w).1.2).map keyOf⟩,
      (keyAndKeys cs (n + 1) w).2) := rfl

theorem pointer_of_ne {c : Cursor} (h : ∀ cs, c.rest ≠ '/' :: cs) (w : Furthest) :
    pointer c w = (⟨[]⟩, c, w.want c.offset (.literal "/" false)) := by
  unfold pointer
  split
  · next cs heq => exact absurd heq (h cs)
  · rfl

theorem pointer_iff (c : Cursor) (w : Furthest) (p : Pointer) :
    ((pointer c w).1 = p ∧ (pointer c w).2.1.rest = []) ↔ c.rest = p.render := by
  have hkeys (key : List Char) (keys : List (List Char)) :
      (encodeKey key :: keys.map encodeKey).map keyOf = (key :: keys).map String.ofList := by
    simp [keyOf_encodeKey]
  obtain ⟨rest, n⟩ := c
  constructor
  · rintro ⟨rfl, hrest⟩
    by_cases h : ∃ cs, rest = '/' :: cs
    · obtain ⟨cs, rfl⟩ := h
      obtain ⟨key, keys, hread, hcs⟩ := keyAndKeys_sound cs (n + 1) w
      rw [pointer_slash] at hrest ⊢
      rw [hrest, List.append_nil] at hcs
      rw [hread, hkeys, hcs]
      simp [Pointer.render]
    · rw [pointer_of_ne fun cs heq => h ⟨cs, heq⟩] at hrest ⊢
      exact hrest
  · obtain ⟨keys⟩ := p
    rintro rfl
    cases keys with
    | nil => exact ⟨rfl, rfl⟩
    | cons key keys =>
      obtain ⟨m, w', hread⟩ := keyAndKeys_complete key.toList (keys.map String.toList) (n + 1) w
      have hslash : Pointer.render ⟨key :: keys⟩ =
          '/' :: (encodeKey key.toList ++ renderKeys (keys.map String.toList)) := rfl
      rw [hslash, pointer_slash, hread, hkeys]
      exact ⟨by simp, rfl⟩

/-! ## Parts of messages -/

theorem bodyPointer_hash (cs : List Char) (n : Nat) (w : Furthest) :
    ∃ c, c.rest = cs ∧ bodyPointer ⟨'#' :: cs, n⟩ w =
      (some (.body (some (pointer c w).1), (pointer c w).2.1), (pointer c w).2.2) :=
  ⟨_, rfl, rfl⟩

theorem bodyPointer_of_ne {c : Cursor} (h : ∀ cs, c.rest ≠ '#' :: cs) (w : Furthest) :
    bodyPointer c w = (some (.body none, c), w.want c.offset (.literal "#" false)) := by
  obtain ⟨rest, n⟩ := c
  have hlit : afterLiteral? false ['#'] rest = none := by
    cases rest with
    | nil => rfl
    | cons d ds =>
      rw [afterLiteral?, if_neg]
      rintro (rfl | ⟨hf, _⟩)
      · exact h ds rfl
      · cases hf
  unfold bodyPointer literal
  rw [show "#".toList = ['#'] from rfl, hlit]

theorem bodyPointer_readsAs : bodyPointer.ReadsAs fun cs part => (∃ p, part = .body p) ∧ cs = part.content := by
  intro c w part
  by_cases h : ∃ cs, c.rest = '#' :: cs
  · obtain ⟨cs, hc⟩ := h
    obtain ⟨rest, n⟩ := c
    dsimp only at hc
    subst hc
    obtain ⟨c, rfl, hread⟩ := bodyPointer_hash cs n w
    have hp := pointer_iff c w
    rw [hread]
    constructor
    · rintro ⟨m, heq⟩
      simp only [Option.some.injEq, Prod.mk.injEq] at heq
      obtain ⟨rfl, hbehind⟩ := heq
      exact ⟨⟨_, rfl⟩, congrArg ('#' :: ·) ((hp _).mp ⟨rfl, by rw [hbehind]⟩)⟩
    · rintro ⟨⟨p, rfl⟩, heq⟩
      cases p with
      | none => cases heq
      | some p =>
        obtain ⟨rfl, hrest⟩ := (hp p).mpr (List.cons.inj heq).2
        exact ⟨(pointer c w).2.1.offset, by rw [← hrest]⟩
  · rw [bodyPointer_of_ne (fun cs hc => h ⟨cs, hc⟩)]
    constructor
    · rintro ⟨m, heq⟩
      cases heq
      exact ⟨⟨_, rfl⟩, rfl⟩
    · rintro ⟨⟨p, rfl⟩, heq⟩
      cases p with
      | none => exact ⟨c.offset, by rw [← show c.rest = [] from heq]⟩
      | some p => exact absurd ⟨_, heq⟩ h

/-- The alternatives for a part of a message are its four kinds, each behind its keyword. -/
theorem part_alternatives_iff (cs : List Char) (p : MessagePart) :
    ((∃ name, Behind "header.".toList (fun cs name => cs = name.toList ∧ Word isTokenChar name) cs name ∧
        .header name = p) ∨
      (∃ name, Behind "query.".toList (fun cs name => cs = name.toList ∧ Word isNameChar name) cs name ∧
        .query name = p) ∨
      (∃ name, Behind "path.".toList (fun cs name => cs = name.toList ∧ Word isNameChar name) cs name ∧
        .path name = p) ∨
      Behind "body".toList (fun cs part => (∃ q, part = .body q) ∧ cs = part.content) cs p) ↔
      p.WellFormed ∧ p.Spells cs := by
  constructor
  · rintro (⟨name, ⟨as, rest, rfl, has, rfl, hw⟩, rfl⟩ | ⟨name, ⟨as, rest, rfl, has, rfl, hw⟩, rfl⟩ |
      ⟨name, ⟨as, rest, rfl, has, rfl, hw⟩, rfl⟩ | ⟨as, rest, rfl, has, ⟨p, rfl⟩, rfl⟩)
    · exact ⟨hw, as, rfl, has⟩
    · exact ⟨hw, as, rfl, has⟩
    · exact ⟨hw, as, rfl, has⟩
    · exact ⟨trivial, as, rfl, has⟩
  · rintro ⟨hw, as, rfl, has⟩
    cases p with
    | header name => exact .inl ⟨name, ⟨as, _, rfl, has, rfl, hw⟩, rfl⟩
    | query name => exact .inr (.inl ⟨name, ⟨as, _, rfl, has, rfl, hw⟩, rfl⟩)
    | path name => exact .inr (.inr (.inl ⟨name, ⟨as, _, rfl, has, rfl, hw⟩, rfl⟩))
    | body pointer => exact .inr (.inr (.inr ⟨as, _, rfl, has, ⟨pointer, rfl⟩, rfl⟩))

/-- A part of a message is read from what spells it. -/
theorem part_readsAs : part.ReadsAs fun cs p => p.WellFormed ∧ p.Spells cs := by
  have hheader := ((run_readsAs isTokenChar "[!#$%&'*+-.^_\x60|~0-9A-Za-z]").behind "header.").map MessagePart.header
  have hquery := ((run_readsAs isNameChar "[\\x21-\\x7E]").behind "query.").map MessagePart.query
  have hpath := ((run_readsAs isNameChar "[\\x21-\\x7E]").behind "path.").map MessagePart.path
  have hbody := bodyPointer_readsAs.behind "body"
  have h₁ := ReadsAs.orElse rfl hpath hbody fun cs a h => h.beginsWith.not (by decide) (by decide)
  have h₂ := ReadsAs.orElse rfl hquery h₁ fun cs a h => by
    rcases h with ⟨_, h, _⟩ | h
    · exact h.beginsWith.not (by decide) (by decide)
    · exact h.beginsWith.not (by decide) (by decide)
  have h₃ := ReadsAs.orElse rfl hheader h₂ fun cs a h => by
    rcases h with ⟨_, h, _⟩ | ⟨_, h, _⟩ | h
    · exact h.beginsWith.not (by decide) (by decide)
    · exact h.beginsWith.not (by decide) (by decide)
    · exact h.beginsWith.not (by decide) (by decide)
  exact h₃.congr part_alternatives_iff

end FlowSuite.RuntimeExpr
