import FlowSuite.Proofs.Script.Printed
import FlowSuite.TestCase.Scope

/-!
# Payloads are read back

A payload is written into a test as the literal of a JSON value. `Expr.json?` gives the value of a literal, and the
literal of a value whose numbers are whole and fit in 64 bits gives that value back, with its keys in their order
(`Json.read_lower`). A key is bare where it can be and quoted elsewhere, and says the same either way.
-/

namespace FlowSuite

open Script (Expr Key)

namespace Script

mutual

/-- The JSON value of a literal. -/
def Expr.json? : Expr → Option Json
  | .value .null => some .null
  | .value (.bool b) => some (.bool b)
  | .value (.int n) => some (.int n)
  | .value (.string s) => some (.str s)
  | .array items => (itemValues? items).map .arr
  | .object entries => (memberValues? entries).map .obj
  | _ => none

/-- The JSON values of the items of an array. -/
def itemValues? : List Expr → Option (List Json)
  | [] => some []
  | e :: es =>
    match e.json?, itemValues? es with
    | some item, some items => some (item :: items)
    | _, _ => none

/-- The members that the entries of an object write. -/
def memberValues? : List (Key × Expr) → Option (List (String × Json))
  | [] => some []
  | (key, e) :: entries =>
    match e.json?, memberValues? entries with
    | some value, some members => some ((key.name, value) :: members)
    | _, _ => none

end

theorem Key.name_ofName (name : String) : (Key.ofName name).name = name := by
  unfold Key.ofName
  split <;> rfl

theorem Key.plain_ofName (name : String) : (Key.ofName name).Plain := by
  unfold Key.ofName
  split
  · next h => exact h
  · trivial

end Script

namespace Json

/-- All numbers of a value are whole and fit in 64 bits with a sign. -/
inductive Whole : Json → Prop
  | null : Whole .null
  | bool (b : Bool) : Whole (.bool b)
  | int {n : Int} : Decimal.isInt64 n → Whole (.int n)
  | str (s : String) : Whole (.str s)
  | arr {items : List Json} : (∀ item ∈ items, Whole item) → Whole (.arr items)
  | obj {members : List (String × Json)} : (∀ member ∈ members, Whole member.2) → Whole (.obj members)

theorem mem_lowerItems {e : Expr} : ∀ {items : List Json}, e ∈ lowerItems items → ∃ item ∈ items, e = item.lower
  | item :: items, h => by
    rw [lowerItems] at h
    rcases List.mem_cons.mp h with rfl | h
    · exact ⟨item, List.mem_cons_self, rfl⟩
    · obtain ⟨item', hmem, rfl⟩ := mem_lowerItems h
      exact ⟨item', List.mem_cons_of_mem _ hmem, rfl⟩

theorem mem_lowerMembers {entry : Key × Expr} : ∀ {members : List (String × Json)}, entry ∈ lowerMembers members →
    ∃ member ∈ members, entry = (.ofName member.1, member.2.lower)
  | (key, value) :: members, h => by
    rw [lowerMembers] at h
    rcases List.mem_cons.mp h with rfl | h
    · exact ⟨(key, value), List.mem_cons_self, rfl⟩
    · obtain ⟨member, hmem, rfl⟩ := mem_lowerMembers h
      exact ⟨member, List.mem_cons_of_mem _ hmem, rfl⟩

theorem itemValues?_lowerItems : ∀ {items : List Json}, (∀ item ∈ items, item.lower.json? = some item) →
    Script.itemValues? (lowerItems items) = some items
  | [], _ => rfl
  | item :: items, h => by
    have hmore := itemValues?_lowerItems fun item hmem => h item (List.mem_cons_of_mem _ hmem)
    rw [lowerItems, Script.itemValues?, h item List.mem_cons_self, hmore]

theorem memberValues?_lowerMembers : ∀ {members : List (String × Json)},
    (∀ member ∈ members, member.2.lower.json? = some member.2) →
    Script.memberValues? (lowerMembers members) = some members
  | [], _ => rfl
  | (key, value) :: members, h => by
    have hmore := memberValues?_lowerMembers fun member hmem => h member (List.mem_cons_of_mem _ hmem)
    have hvalue : value.lower.json? = some value := h (key, value) List.mem_cons_self
    rw [lowerMembers, Script.memberValues?, hvalue, hmore]
    simp only [Script.Key.name_ofName]

/-- The literal of a value is a plain expression, and has that value. -/
theorem Whole.lower_spec {v : Json} (h : v.Whole) : v.lower.Plain ∧ v.lower.json? = some v := by
  induction h with
  | null => exact ⟨.null, rfl⟩
  | bool b => exact ⟨.bool b, rfl⟩
  | @int n hn =>
    rw [Json.lower, lowerInt, if_pos hn]
    exact ⟨.int n, rfl⟩
  | str s => exact ⟨.string s, rfl⟩
  | @arr items _ ih =>
    rw [Json.lower]
    refine ⟨.array fun e he => ?_, ?_⟩
    · obtain ⟨item, hmem, rfl⟩ := mem_lowerItems he
      exact (ih item hmem).1
    · rw [Script.Expr.json?, itemValues?_lowerItems fun item hmem => (ih item hmem).2]
      rfl
  | @obj members _ ih =>
    rw [Json.lower]
    refine ⟨.object (fun entry he => ?_) fun entry he => ?_, ?_⟩
    · obtain ⟨member, _, rfl⟩ := mem_lowerMembers he
      exact Script.Key.plain_ofName member.1
    · obtain ⟨member, hmem, rfl⟩ := mem_lowerMembers he
      exact (ih member hmem).1
    · rw [Script.Expr.json?, memberValues?_lowerMembers fun member hmem => (ih member hmem).2]
      rfl

/-- **The text of the literal of a value is read as that value**, at every level of indentation. A string inside,
whether a value or a key, ends where it was written to end, whatever it holds and whatever follows. -/
theorem read_lower {v : Json} (h : v.Whole) (level : Nat) :
    (Expr.read (v.lower.text level)).bind Expr.json? = some v ∧
      ∀ (s : String) (rest : List Char), Script.Lexeme.next? (Script.quote s ++ rest) = some (.string s, rest) := by
  obtain ⟨hplain, hvalue⟩ := h.lower_spec
  refine ⟨?_, Script.Lexeme.next?_quote⟩
  rw [hplain.read_eq level, Option.bind_some, hvalue]

/-- A payload with a quoted and a bare key, a negative number and a string that tries to end early. -/
def orderPayload : Json :=
  .obj [("order-id", .int (-7)), ("note", .str "\", x: \"\\\n\x07"), ("parts", .arr [.bool true, .null, .obj []])]

theorem whole_orderPayload : orderPayload.Whole := by
  have hparts : ∀ item ∈ [Json.bool true, .null, .obj []], item.Whole :=
    List.forall_mem_cons.mpr ⟨.bool true, List.forall_mem_cons.mpr ⟨.null,
      List.forall_mem_cons.mpr ⟨.obj (by simp), by simp⟩⟩⟩
  exact .obj (List.forall_mem_cons.mpr ⟨.int (by decide), List.forall_mem_cons.mpr ⟨.str _,
    List.forall_mem_cons.mpr ⟨.arr hparts, by simp⟩⟩⟩)

/-- It is read back. -/
theorem read_lower_orderPayload :
    orderPayload.Whole ∧ (Expr.read (orderPayload.lower.text 2)).bind Expr.json? = some orderPayload :=
  ⟨whole_orderPayload, (read_lower whole_orderPayload 2).1⟩

end Json

end FlowSuite
