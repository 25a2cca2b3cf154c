import FlowSuite.Decimal.Binary64

/-!
# JSON values

Objects keep their members in the order they were written.
-/

namespace FlowSuite

/-- A JSON value. Numbers are whole numbers between `-2 ^ 63` and `2 ^ 64`, or binary64 numbers. -/
inductive Json where
  | null
  | bool (value : Bool)
  | int (value : Int)
  | float (value : Binary64)
  | str (value : String)
  | arr (items : List Json)
  | obj (members : List (String × Json))
deriving Inhabited

namespace Json

/-- The text of a string value. -/
def text? : Json → Option String
  | str s => some s
  | _ => none

/-- Sets a member; a key that is there already keeps its place. -/
def setMember (key : String) (value : α) : List (String × α) → List (String × α)
  | [] => [(key, value)]
  | (k, v) :: more => if k = key then (k, value) :: more else (k, v) :: setMember key value more

/-- The members of an object in the order of the first mention of their keys, each with its last value. -/
def collectMembers (entries : List (String × α)) : List (String × α) :=
  entries.foldl (fun members (k, v) => setMember k v members) []

/-- The value of a key among members. -/
def member? (key : String) : List (String × α) → Option α
  | [] => none
  | (k, v) :: more => if k = key then some v else member? key more

@[simp] theorem member?_setMember (key k : String) (v : α) (members : List (String × α)) :
    member? k (setMember key v members) = if k = key then some v else member? k members := by
  induction members with
  | nil =>
    simp only [setMember, member?]
    by_cases h : key = k
    · simp [h]
    · simp [h, Ne.symm h]
  | cons kv more ih =>
    obtain ⟨k', v'⟩ := kv
    simp only [setMember]
    by_cases h : k' = key
    · subst h
      by_cases h2 : k' = k
      · simp [member?, h2]
      · simp [member?, h2, Ne.symm h2]
    · by_cases h2 : k' = k
      · subst h2; simp [member?, h]
      · simp [member?, h, h2, ih]

end Json

end FlowSuite
