import FlowSuite.Condition.Comparing

/-!
# Brackets and quotes in a text

The search for an operator knows at every place how many brackets are open and whether a quote is (`Place`). `Nests`
says the same of a whole text without going through it: it is made of strings in quotes, of brackets that open and
close, and of other characters, and a closing bracket where none is open counts for nothing.

* `steps_outside_iff`: a text leads from outside of quotes to outside of quotes exactly if it nests.
* `Nests.inside`: a text that closes no bracket of others nests in the same way inside of more brackets.
-/

namespace FlowSuite.FlatComparison

/-- What stands between two quotes: characters, and pairs of a backslash and any character. -/
inductive IsQuoted (quote : Char) : List Char → Prop
  | nil : IsQuoted quote []
  | escape (c : Char) {cs : List Char} : IsQuoted quote cs → IsQuoted quote ('\\' :: c :: cs)
  | char {c : Char} {cs : List Char} : c ≠ '\\' → c ≠ quote → IsQuoted quote cs → IsQuoted quote (c :: cs)

/-- Where so many brackets are open in front of a text, so many are open behind it, and all quotes in it are closed.
The parameter says whether it may close brackets where none is open. -/
inductive Nests (strays : Prop) : Nat → List Char → Nat → Prop
  | nil (n : Nat) : Nests strays n [] n
  | string {n m : Nat} {quote : Char} {inner cs : List Char} : quote = '\'' ∨ quote = '"' → IsQuoted quote inner →
      Nests strays n cs m → Nests strays n (quote :: (inner ++ quote :: cs)) m
  | opening {n m : Nat} {c : Char} {cs : List Char} : c ∈ ['(', '[', '\x7b'] → Nests strays (n + 1) cs m →
      Nests strays n (c :: cs) m
  | closing {n m : Nat} {c : Char} {cs : List Char} : c ∈ [')', ']', '\x7d'] → Nests strays n cs m →
      Nests strays (n + 1) (c :: cs) m
  | stray {m : Nat} {c : Char} {cs : List Char} : strays → c ∈ [')', ']', '\x7d'] → Nests strays 0 cs m →
      Nests strays 0 (c :: cs) m
  | char {n m : Nat} {c : Char} {cs : List Char} : c ≠ '\'' → c ≠ '"' → c ∉ ['(', '[', '\x7b'] →
      c ∉ [')', ']', '\x7d'] → Nests strays n cs m → Nests strays n (c :: cs) m

/-- The place behind a text. -/
def Place.steps (p : Place) (cs : List Char) : Place := cs.foldl Place.step p

@[simp] theorem Place.steps_nil (p : Place) : p.steps [] = p := rfl

@[simp] theorem Place.steps_cons (p : Place) (c : Char) (cs : List Char) :
    p.steps (c :: cs) = (p.step c).steps cs := rfl

theorem Place.steps_append (p : Place) (cs ds : List Char) : p.steps (cs ++ ds) = (p.steps cs).steps ds :=
  List.foldl_append

variable {n m : Nat} {quote c : Char} {cs inner : List Char}

/-! ## Strings -/

theorem step_quoted (hslash : c ≠ '\\') (hquote : c ≠ quote) :
    (Place.quoted n quote false).step c = .quoted n quote false := by
  rw [Place.step, if_neg hslash, if_neg hquote]

/-- Behind the closing quote the search is where it was in front of the string. -/
theorem IsQuoted.steps_eq (h : IsQuoted quote inner) (hquote : quote ≠ '\\') (n : Nat) (cs : List Char) :
    (Place.quoted n quote false).steps (inner ++ quote :: cs) = (Place.outside n).steps cs := by
  induction h with
  | nil =>
    have hstep : (Place.quoted n quote false).step quote = .outside n := by rw [Place.step, if_neg hquote, if_pos rfl]
    rw [List.nil_append, Place.steps_cons, hstep]
  | escape c _ ih => exact ih
  | char hslash hc _ ih => rw [List.cons_append, Place.steps_cons, step_quoted hslash hc, ih]

/-- A quote that is closed again has its end. -/
theorem exists_isQuoted : ∀ {cs : List Char}, (Place.quoted n quote false).steps cs = .outside m →
    ∃ inner rest, cs = inner ++ quote :: rest ∧ IsQuoted quote inner ∧ (Place.outside n).steps rest = .outside m
  | [], h => by cases h
  | c :: cs, h => by
    by_cases hslash : c = '\\'
    · subst hslash
      match cs, h with
      | [], h => cases h
      | d :: cs, h =>
        have hinside : (Place.quoted n quote false).steps cs = .outside m := h
        obtain ⟨inner, rest, rfl, hinner, hrest⟩ := exists_isQuoted hinside
        exact ⟨'\\' :: d :: inner, rest, rfl, hinner.escape d, hrest⟩
    by_cases hc : c = quote
    · subst hc
      rw [Place.steps_cons, Place.step, if_neg hslash, if_pos rfl] at h
      exact ⟨[], cs, rfl, .nil, h⟩
    · rw [Place.steps_cons, step_quoted hslash hc] at h
      obtain ⟨inner, rest, rfl, hinner, hrest⟩ := exists_isQuoted h
      exact ⟨c :: inner, rest, rfl, hinner.char hslash hc, hrest⟩

/-! ## Texts -/

theorem step_quote (h : c = '\'' ∨ c = '"') : (Place.outside n).step c = .quoted n c false := by
  rw [Place.step, if_pos h]

theorem step_opening (h : c ∈ ['(', '[', '\x7b']) : (Place.outside n).step c = .outside (n + 1) := by
  simp only [List.mem_cons, List.not_mem_nil, or_false] at h
  rcases h with rfl | rfl | rfl <;> rfl

theorem step_closing (h : c ∈ [')', ']', '\x7d']) : (Place.outside n).step c = .outside (n - 1) := by
  simp only [List.mem_cons, List.not_mem_nil, or_false] at h
  rcases h with rfl | rfl | rfl <;> rfl

theorem step_char (hsingle : c ≠ '\'') (hdouble : c ≠ '"') (hopen : c ∉ ['(', '[', '\x7b'])
    (hclose : c ∉ [')', ']', '\x7d']) : (Place.outside n).step c = .outside n := by
  rw [Place.step, if_neg (not_or.mpr ⟨hsingle, hdouble⟩), if_neg hopen, if_neg hclose]

theorem Nests.steps_eq {strays : Prop} (h : Nests strays n cs m) : (Place.outside n).steps cs = .outside m := by
  induction h with
  | nil => rfl
  | @string n m quote inner cs hquote hinner _ ih =>
    have hslash : quote ≠ '\\' := by rcases hquote with rfl | rfl <;> decide
    rw [Place.steps_cons, step_quote hquote, hinner.steps_eq hslash, ih]
  | opening hc _ ih => rw [Place.steps_cons, step_opening hc, ih]
  | closing hc _ ih => rw [Place.steps_cons, step_closing hc, Nat.add_sub_cancel, ih]
  | stray _ hc _ ih => rw [Place.steps_cons, step_closing hc, Nat.zero_sub, ih]
  | char hsingle hdouble hopen hclose _ ih => rw [Place.steps_cons, step_char hsingle hdouble hopen hclose, ih]

theorem nests_of_steps (h : (Place.outside n).steps cs = .outside m) : Nests True n cs m := by
  induction hlength : cs.length using Nat.strongRecOn generalizing cs n with
  | _ length ih =>
    subst hlength
    cases cs with
    | nil => cases h; exact .nil _
    | cons c cs =>
      by_cases hquote : c = '\'' ∨ c = '"'
      · rw [Place.steps_cons, step_quote hquote] at h
        obtain ⟨inner, rest, rfl, hinner, hrest⟩ := exists_isQuoted h
        exact .string hquote hinner (ih _ (by simp; omega) hrest rfl)
      by_cases hopen : c ∈ ['(', '[', '\x7b']
      · rw [Place.steps_cons, step_opening hopen] at h
        exact .opening hopen (ih _ (by simp) h rfl)
      by_cases hclose : c ∈ [')', ']', '\x7d']
      · rw [Place.steps_cons, step_closing hclose] at h
        cases n with
        | zero => exact .stray trivial hclose (ih _ (by simp) h rfl)
        | succ n => exact .closing hclose (ih _ (by simp) h rfl)
      · obtain ⟨hsingle, hdouble⟩ := not_or.mp hquote
        rw [Place.steps_cons, step_char hsingle hdouble hopen hclose] at h
        exact .char hsingle hdouble hopen hclose (ih _ (by simp) h rfl)

/-- **The search is outside of quotes behind a text exactly if the text nests.** -/
theorem steps_outside_iff : (Place.outside n).steps cs = .outside m ↔ Nests True n cs m :=
  ⟨nests_of_steps, Nests.steps_eq⟩

/-- A text that closes no bracket of others leaves the brackets around it as they are. -/
theorem Nests.inside (h : Nests False n cs m) (k : Nat) : Nests False (n + k) cs (m + k) := by
  induction h with
  | nil => exact .nil _
  | string hquote hinner _ ih => exact .string hquote hinner ih
  | opening hc _ ih => exact .opening hc (by rwa [Nat.add_right_comm] at ih)
  | closing hc _ ih =>
    rw [Nat.add_right_comm]
    exact .closing hc ih
  | stray hfalse => exact hfalse.elim
  | char hsingle hdouble hopen hclose _ ih => exact .char hsingle hdouble hopen hclose ih

end FlowSuite.FlatComparison
