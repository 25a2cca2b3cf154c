import FlowSuite.Proofs.RuntimeExpr.Readers

/-!
# Reading and writing runtime expressions are inverse

* `parse_eq_ok_iff`: a text is read as an expression exactly if the expression can be written and the text spells it.
* `parse_render_inverse`: so canonical spellings are read back, whatever is read is spelled canonically but for the case
  of its keywords, every written key stands for a key, and the keyword of parameters never counts as that of components.

Keywords are tried in order, and the first that is in front of the text decides. No keyword is in front of another one,
in any case, except that of components in front of that of parameters (`roots_pairwise`). So the order matters for these
two only.
-/

namespace FlowSuite.RuntimeExpr

open Reader

/-! ## The first keyword -/

/-- What stands behind the first keyword of an expression. -/
def Tail : RuntimeExpr → List Char → Prop
  | url, cs | method, cs | statusCode, cs => cs = []
  | ofMessage _ part, cs => part.WellFormed ∧ part.Spells cs
  | named _ name, cs => cs = name.toList ∧ Word isNameChar name

/-- An expression that is nothing but a keyword is known by that keyword. -/
theorem eq_of_root {d e : RuntimeExpr} (hd : d = url ∨ d = method ∨ d = statusCode) (h : e.root = d.root) : e = d := by
  cases e with
  | url | method | statusCode => rcases hd with rfl | rfl | rfl <;> first | rfl | simp [root] at h
  | ofMessage m _ => rcases hd with rfl | rfl | rfl <;> cases m <;> simp [root, Message.keyword] at h
  | named s _ => rcases hd with rfl | rfl | rfl <;> cases s <;> simp [root, Namespace.keyword] at h

theorem eq_ofMessage_of_root {m : Message} {e : RuntimeExpr} (h : e.root = m.keyword) : ∃ p, e = ofMessage m p := by
  cases e with
  | url | method | statusCode => cases m <;> simp [root, Message.keyword] at h
  | ofMessage l p => cases l <;> cases m <;> first | exact ⟨p, rfl⟩ | simp [root, Message.keyword] at h
  | named s _ => cases m <;> cases s <;> simp [root, Message.keyword, Namespace.keyword] at h

theorem eq_named_of_root {s : Namespace} {e : RuntimeExpr} (h : e.root = s.keyword) : ∃ n, e = named s n := by
  cases e with
  | url | method | statusCode => cases s <;> simp [root, Namespace.keyword] at h
  | ofMessage m _ => cases m <;> cases s <;> simp [root, Message.keyword, Namespace.keyword] at h
  | named t n => cases s <;> cases t <;> first | exact ⟨n, rfl⟩ | simp [root, Namespace.keyword] at h

/-- Reads the rest of the expressions with a keyword. -/
def ReadsTail (root : String × Reader RuntimeExpr) : Prop := root.2.ReadsAs fun cs e => e.root = root.1 ∧ e.Tail cs

theorem readsTail_done {d : RuntimeExpr} (hd : d = url ∨ d = method ∨ d = statusCode) : ReadsTail (d.root, done d) := by
  have htail (cs : List Char) : d.Tail cs ↔ cs = [] := by rcases hd with rfl | rfl | rfl <;> rfl
  intro c w e
  constructor
  · rintro ⟨n, heq⟩
    cases heq
    exact ⟨rfl, (htail _).mpr rfl⟩
  · rintro ⟨hroot, ht⟩
    rw [eq_of_root hd hroot, htail] at *
    exact ⟨c.offset, by rw [← ht]; rfl⟩

theorem tail_ofMessage_iff (m : Message) (cs : List Char) (e : RuntimeExpr) :
    (∃ p : MessagePart, (p.WellFormed ∧ p.Spells cs) ∧ ofMessage m p = e) ↔ e.root = m.keyword ∧ e.Tail cs := by
  constructor
  · rintro ⟨p, hp, rfl⟩
    exact ⟨rfl, hp⟩
  · rintro ⟨hroot, ht⟩
    obtain ⟨p, rfl⟩ := eq_ofMessage_of_root hroot
    exact ⟨p, ht, rfl⟩

theorem tail_named_iff (s : Namespace) (cs : List Char) (e : RuntimeExpr) :
    (∃ n : String, (cs = n.toList ∧ Word isNameChar n) ∧ named s n = e) ↔ e.root = s.keyword ∧ e.Tail cs := by
  constructor
  · rintro ⟨n, hn, rfl⟩
    exact ⟨rfl, hn⟩
  · rintro ⟨hroot, ht⟩
    obtain ⟨n, rfl⟩ := eq_named_of_root hroot
    exact ⟨n, ht, rfl⟩

theorem readsTail_part (m : Message) : ReadsTail (m.keyword, part.map (ofMessage m)) :=
  (part_readsAs.map _).congr (tail_ofMessage_iff m)

theorem readsTail_name (s : Namespace) : ReadsTail (s.keyword, name.map (named s)) :=
  ((run_readsAs isNameChar _).map _).congr (tail_named_iff s)

/-- Every entry of the table reads the rest of the expressions with its keyword. -/
theorem roots_readsTail : ∀ root ∈ roots, ReadsTail root := by
  simp only [roots, List.forall_mem_cons]
  exact ⟨readsTail_done (.inl rfl), readsTail_done (.inr (.inl rfl)), readsTail_done (.inr (.inr rfl)),
    readsTail_part .request, readsTail_part .response, readsTail_part .message,
    readsTail_name .inputs, readsTail_name .outputs, readsTail_name .steps, readsTail_name .workflows,
    readsTail_name .sourceDescriptions, readsTail_name .componentParameters, readsTail_name .components, by simp⟩

/-- The first keyword in front of a text decides how it is read. -/
theorem firstRoot_readsAs : ∀ {rs : List (String × Reader RuntimeExpr)}, (∀ root ∈ rs, ReadsTail root) →
    (firstRoot rs).ReadsAs fun cs e => (rs.map Prod.fst).find? (fun k => BeginsWith k.toList cs) = some e.root ∧
      Behind e.root.toList (fun rest d => d.Tail rest) cs e
  | [], _ => fun c w e => by simp [firstRoot]
  | (keyword, follow) :: more, h => by
    intro c w e
    have hfollow := (h _ List.mem_cons_self).behind keyword c w e
    have hmore := firstRoot_readsAs fun root hroot => h root (List.mem_cons_of_mem _ hroot)
    simp only [andThen, literal] at hfollow
    simp only [List.map_cons, List.find?_cons, firstRoot, literal]
    cases hrest : afterLiteral? true keyword.toList c.rest with
    | none =>
      rw [decide_eq_false (afterLiteral?_eq_none_iff.mp hrest)]
      exact hmore c _ e
    | some rest =>
      have hb : BeginsWith keyword.toList c.rest := by
        by_contra hb
        rw [afterLiteral?_eq_none_iff.mpr hb] at hrest
        cases hrest
      rw [hrest] at hfollow
      rw [decide_eq_true hb]
      refine hfollow.trans ⟨?_, ?_⟩
      · rintro ⟨as, rest, heq, has, rfl, ht⟩
        exact ⟨rfl, as, rest, heq, has, ht⟩
      · rintro ⟨hroot, as, rest, heq, has, ht⟩
        cases hroot
        exact ⟨as, rest, heq, has, rfl, ht⟩

/-- The keywords that expressions begin with, in the order they are tried. -/
def rootKeywords : List String := roots.map Prod.fst

theorem roots_pairwise : rootKeywords.Pairwise fun k l =>
    (¬BeginsWith k.toList l.toList ∧ ¬BeginsWith l.toList k.toList) ∨
      (k = Namespace.componentParameters.keyword ∧ l = Namespace.components.keyword) := by
  decide

theorem root_mem_rootKeywords (e : RuntimeExpr) : e.root ∈ rootKeywords := by
  cases e with
  | url | method | statusCode => decide
  | ofMessage m _ =>
    show m.keyword ∈ rootKeywords
    cases m <;> decide
  | named s _ =>
    show s.keyword ∈ rootKeywords
    cases s <;> decide

/-- A keyword in front of a text is the first one, unless it is that of components and also that of parameters is. -/
theorem find?_rootKeywords_iff {keyword : String} (hk : keyword ∈ rootKeywords) {cs : List Char}
    (hb : BeginsWith keyword.toList cs) :
    rootKeywords.find? (fun k => BeginsWith k.toList cs) = some keyword ↔
      (keyword = Namespace.components.keyword → ¬BeginsWith Namespace.componentParameters.keyword.toList cs) := by
  constructor
  · rintro hfind rfl hp
    obtain ⟨_, before, after, heq, hbefore⟩ := List.find?_eq_some_iff_append.mp hfind
    have hmem : Namespace.componentParameters.keyword ∈ rootKeywords := by decide
    have hpair := roots_pairwise
    rw [heq] at hmem hpair
    rcases List.mem_append.mp hmem with hmem | hmem
    · exact absurd hp (by simpa using hbefore _ hmem)
    rcases List.mem_cons.mp hmem with heq | hmem
    · exact absurd heq (by decide)
    · exact absurd (List.rel_of_pairwise_cons (List.pairwise_append.mp hpair).2.1 hmem) (by decide)
  · intro h
    obtain ⟨before, after, heq⟩ := List.append_of_mem hk
    refine List.find?_eq_some_iff_append.mpr ⟨by simpa using hb, before, after, heq, fun k hmem => ?_⟩
    have hpair := roots_pairwise
    rw [heq, List.pairwise_append] at hpair
    rcases hpair.2.2 k hmem keyword List.mem_cons_self with ⟨hkl, hlk⟩ | ⟨rfl, hcomponents⟩
    · simpa using hb.not hkl hlk
    · simpa using h hcomponents

/-! ## Whole texts -/

/-- The text behind the first keyword is what is written of an expression behind that keyword. -/
theorem behind_root_iff (e : RuntimeExpr) (cs : List Char) :
    (e.root = Namespace.components.keyword → ¬BeginsWith Namespace.componentParameters.keyword.toList cs) ∧
      Behind e.root.toList (fun rest d => d.Tail rest) cs e ↔ e.WellFormed ∧ e.Spells cs := by
  cases e with
  | url | method | statusCode =>
    constructor
    · rintro ⟨_, as, rest, rfl, has, rfl⟩
      exact ⟨trivial, as, rfl, has⟩
    · rintro ⟨_, as, rfl, has⟩
      exact ⟨by simp [root, Namespace.keyword], as, [], rfl, has, rfl⟩
  | ofMessage m part =>
    constructor
    · rintro ⟨_, as, rest, rfl, has, hw, bs, rfl, hbs⟩
      exact ⟨hw, as ++ bs, by rw [List.append_assoc]; rfl, has.append hbs⟩
    · rintro ⟨hw, as, rfl, has⟩
      obtain ⟨as, bs, rfl, has, hbs⟩ := sameLetters_append_iff.mp has
      exact ⟨by cases m <;> simp [root, Message.keyword, Namespace.keyword],
        as, bs ++ part.content, by rw [List.append_assoc]; rfl, has, hw, bs, rfl, hbs⟩
  | named s n =>
    have hroot : (named s n).root = Namespace.components.keyword ↔ s = .components := by
      cases s <;> simp [root, Namespace.keyword]
    rw [hroot]
    constructor
    · rintro ⟨hs, as, rest, rfl, has, rfl, hw⟩
      have hspells : (named s n).Spells (as ++ n.toList) := ⟨as, rfl, has⟩
      exact ⟨⟨hw, fun he => hspells.beginsWith_iff.not.mp (hs he)⟩, hspells⟩
    · rintro ⟨⟨hw, hs⟩, hspells⟩
      refine ⟨fun he => hspells.beginsWith_iff.not.mpr (hs he), ?_⟩
      obtain ⟨as, rfl, has⟩ := hspells
      exact ⟨as, n.toList, rfl, has, rfl, hw⟩

/-- **A text is read as an expression exactly if the expression can be written and the text spells it.** -/
theorem parse_eq_ok_iff {text : List Char} {e : RuntimeExpr} :
    parse text = .ok e ↔ e.WellFormed ∧ e.Spells text := by
  have hread := firstRoot_readsAs roots_readsTail ⟨text, 0⟩ Furthest.none e
  have hparse : parse text = .ok e ↔ ∃ n, (firstRoot roots ⟨text, 0⟩ Furthest.none).1 = some (e, ⟨[], n⟩) := by
    unfold parse
    generalize firstRoot roots ⟨text, 0⟩ Furthest.none = out
    obtain ⟨found, w⟩ := out
    cases found with
    | none => simp
    | some found =>
      obtain ⟨d, rest, n⟩ := found
      cases rest <;> simp
  rw [hparse, hread, ← behind_root_iff]
  refine and_congr_left fun hbehind => ?_
  exact find?_rootKeywords_iff (root_mem_rootKeywords e) hbehind.beginsWith

/-- **Reading and writing are inverse.** What can be written is read back from its canonical spelling; what is read can
be written, and the text differs from its canonical spelling in the case of keywords only. No written key is ever taken
as it is for want of a key it stands for, and behind the keyword of parameters, in any case, nothing is read as a
component. -/
theorem parse_render_inverse :
    (∀ e : RuntimeExpr, e.WellFormed → parse e.render = .ok e) ∧
      (∀ text e, parse text = .ok e → e.WellFormed ∧ e.Spells text) ∧
      (∀ cs n w, ∀ written ∈ (keyAndKeys cs n w).1.1 :: (keyAndKeys cs n w).1.2,
        ∃ key, Pointer.decodeKey written = some key ∧ keyOf written = String.ofList key) ∧
      ∀ text, BeginsWith "$components.parameters.".toList text →
        ∀ name, parse text ≠ .ok (.named .components name) := by
  refine ⟨fun e he => parse_eq_ok_iff.mpr ⟨he, e.spells_render⟩, fun text e => parse_eq_ok_iff.mp, ?_, ?_⟩
  · intro cs n w written hmem
    obtain ⟨key, keys, hread, _⟩ := keyAndKeys_sound cs n w
    rw [hread, ← List.map_cons (f := Pointer.encodeKey)] at hmem
    obtain ⟨key, _, rfl⟩ := List.mem_map.mp hmem
    exact ⟨key, Pointer.decodeKey_encodeKey key, keyOf_encodeKey key⟩
  · intro text hb name hparse
    obtain ⟨⟨_, hcomponents⟩, hspells⟩ := parse_eq_ok_iff.mp hparse
    exact hcomponents rfl (hspells.beginsWith_iff.mp hb)

example : parse "$REQUEST.Body#/a~1b/~01".toList = .ok (.ofMessage .request (.body (some ⟨["a/b", "~1"]⟩))) := rfl

end FlowSuite.RuntimeExpr
