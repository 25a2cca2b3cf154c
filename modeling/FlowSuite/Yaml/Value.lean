import FlowSuite.Document.Tree
import FlowSuite.Yaml.Node

/-!
# Values of nodes

A plain scalar may be nothing, a truth value or a number; every other scalar is a text. Where a text is asked for,
every scalar is one, and where a collection is asked for, an empty plain scalar is an empty one.
-/

namespace FlowSuite.Yaml

/-- What a whole number in plain text turns out to be. -/
inductive WholeNumber where
  | fits (n : Int)
  /-- Fits in 128 bits but not in 64. -/
  | tooWide
deriving DecidableEq, Repr

/-- Zeros before digits, which make a text. -/
def hasLeadingZero (cs : List Char) : Bool :=
  match (Decimal.splitSign cs).2 with
  | '0' :: c :: more => (c :: more).all Char.isDigit
  | _ => false

/-- The digits behind the sign of a base other than ten. -/
def splitBase : List Char → Option (Nat × List Char)
  | '0' :: 'x' :: cs => some (16, cs)
  | '0' :: 'o' :: cs => some (8, cs)
  | '0' :: 'b' :: cs => some (2, cs)
  | _ => none

/-- The whole number, of any size, that a plain text writes. -/
def readWhole? (cs : List Char) : Option Int :=
  let (negative, digits) := Decimal.splitSign cs
  let magnitude := match splitBase digits with
    | some (base, digits) => Decimal.readNat? base digits
    | none => if hasLeadingZero cs then none else Decimal.readNat? 10 digits
  magnitude.map fun n => if negative then -(n : Int) else n

/-- The whole number that a plain text writes, unless it takes more than 128 bits. -/
def WholeNumber.ofText? (cs : List Char) : Option WholeNumber :=
  (readWhole? cs).bind fun n =>
    if Decimal.fitsSigned 63 n ∨ Decimal.fitsUnsigned 64 n then some (.fits n)
    else if Decimal.fitsSigned 127 n ∨ Decimal.fitsUnsigned 128 n then some .tooWide
    else none

namespace Scalar

/-- Plain text for nothing. -/
def isNull (s : Scalar) : Bool := s.isPlain && s.text ∈ ["", "~", "null", "Null", "NULL"]

/-- The truth value that a plain text names. -/
def bool? (text : String) : Option Bool :=
  if text ∈ ["true", "True", "TRUE"] then some true
  else if text ∈ ["false", "False", "FALSE"] then some false
  else none

/-- Plain text for a number that is not finite. -/
def isInfinite (text : String) : Bool :=
  text ∈ [".inf", ".Inf", ".INF", "+.inf", "+.Inf", "+.INF", "-.inf", "-.Inf", "-.INF", ".nan", ".NaN", ".NAN"]

/-- The value of a scalar; none for a whole number that is too wide. -/
def value? (s : Scalar) : Option Json :=
  if ¬s.isPlain then some (.str s.text)
  else if s.isNull then some .null
  else
    match bool? s.text with
    | some b => some (.bool b)
    | none =>
      match WholeNumber.ofText? s.text.toList with
      | some (.fits n) => some (.int n)
      | some .tooWide => none
      | none =>
        if hasLeadingZero s.text.toList then some (.str s.text)
        else if isInfinite s.text then some .null
        else
          match Decimal.readBinary64? s.text.toList with
          | some x => some (.float x)
          | none => some (.str s.text)

end Scalar

namespace Node

/-- The text of any scalar. -/
def text? : Node → Option String
  | scalar s => some s.text
  | _ => none

mutual

/-- The value of a node. A key that comes again gives its member a new value. -/
def value? : Node → Option Json
  | scalar s => s.value?
  | list items => (valuesOfItems items).map .arr
  | map members => (valuesOfMembers members).map fun members => .obj (Json.collectMembers members)

/-- The values of items. -/
def valuesOfItems : List Node → Option (List Json)
  | [] => some []
  | item :: items => do return (← item.value?) :: (← valuesOfItems items)

/-- The values of members, whose keys are scalars. -/
def valuesOfMembers : List (Node × Node) → Option (List (String × Json))
  | [] => some []
  | (key, value) :: members => do return (← key.text?, ← value.value?) :: (← valuesOfMembers members)

end

/-- An empty plain scalar. -/
def isEmpty : Node → Bool
  | scalar s => s = .empty
  | _ => false

/-- The members of a map, whose keys are scalars. -/
def members? : Node → Option (List (String × Node))
  | map members => members.mapM fun (key, value) => key.text?.map fun k => (k, value)
  | node => if node.isEmpty then some [] else none

end Node

/-- In a record of YAML no field comes twice. -/
instance : DataTree Node where
  isAbsent
    | .scalar s => s.isNull
    | _ => false
  text? := Node.text?
  value? := Node.value?
  list?
    | .list items => some items
    | node => if node.isEmpty then some [] else none
  members? := Node.members?
  record? fields node :=
    node.members?.bind fun members =>
      let known := members.filter fun (key, _) => key ∈ fields
      if (known.map Prod.fst).Nodup then some known else none
  choice? := Node.text?

/-- The data that a text writes. -/
def parse? (text : String) : Option Node := Node.ofText? text.toList

end FlowSuite.Yaml
