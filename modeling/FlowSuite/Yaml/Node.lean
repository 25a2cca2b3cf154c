import FlowSuite.Yaml.Token

/-!
# Nodes

A YAML text is one node: a scalar, a list or a map. `Node.ofTokens?` reads the tokens of a text by the grammar of
collections; a text without any token is an empty scalar. Anchors, aliases, tags and directives are not read.
-/

namespace FlowSuite.Yaml

/-- A scalar or a collection of nodes. -/
inductive Node where
  | scalar (s : Scalar)
  | list (items : List Node)
  | map (members : List (Node × Node))
deriving Inhabited

/-- Where a node stands. -/
inductive Site where
  /-- Inside a flow collection, which holds no blocks. -/
  | flow
  | block
  /-- Behind a key of a block, where the items of a list need not be indented. -/
  | member
deriving DecidableEq, Repr

namespace Node

/-- Nothing written. -/
def empty : Node := .scalar .empty

/-- A node that may be left out before certain tokens. -/
def orEmpty (followers : List Token) (read : List Token → Option (Node × List Token)) (ts : List Token) :
    Option (Node × List Token) :=
  if ts.head?.any (· ∈ followers) then some (empty, ts) else read ts

/-- The value behind a colon, which may be left out; without the colon it is empty. -/
def afterColon (followers : List Token) (read : List Token → Option (Node × List Token)) :
    List Token → Option (Node × List Token)
  | .value :: ts => orEmpty followers read ts
  | ts => some (empty, ts)

/-- What stands behind a comma. -/
def afterComma : List Token → Option (List Token)
  | .comma :: ts => some ts
  | _ => none

mutual

/-- A node. -/
def read : (steps : Nat) → Site → List Token → Option (Node × List Token)
  | 0, _, _ => none
  | n + 1, site, ts =>
    match ts with
    | .scalar s :: ts => some (.scalar s, ts)
    | .flowListStart :: ts => (readFlowItems n true ts).map fun (items, rest) => (.list items, rest)
    | .flowMapStart :: ts => (readFlowMembers n true ts).map fun (members, rest) => (.map members, rest)
    | .blockListStart :: ts =>
      if site = .flow then none else (readItems n ts).map fun (items, rest) => (.list items, rest)
    | .blockMapStart :: ts =>
      if site = .flow then none else (readMembers n ts).map fun (members, rest) => (.map members, rest)
    | .item :: _ =>
      if site = .member then (readLooseItems n ts).map fun (items, rest) => (.list items, rest) else none
    | _ => none

/-- The items of a block of their own, up to its end. -/
def readItems : (steps : Nat) → List Token → Option (List Node × List Token)
  | 0, _ => none
  | n + 1, ts =>
    match ts with
    | .item :: ts => do
      let (item, ts) ← orEmpty [.item, .blockEnd] (read n .block) ts
      let (items, ts) ← readItems n ts
      return (item :: items, ts)
    | .blockEnd :: ts => some ([], ts)
    | _ => none

/-- The items of a list that is not indented, which ends with them. -/
def readLooseItems : (steps : Nat) → List Token → Option (List Node × List Token)
  | 0, _ => none
  | n + 1, ts =>
    match ts with
    | .item :: ts => do
      let (item, ts) ← orEmpty [.item, .key, .value, .blockEnd] (read n .block) ts
      let (items, ts) ← readLooseItems n ts
      return (item :: items, ts)
    | _ => some ([], ts)

/-- The members of a block, up to its end. -/
def readMembers : (steps : Nat) → List Token → Option (List (Node × Node) × List Token)
  | 0, _ => none
  | n + 1, ts =>
    match ts with
    | .key :: ts => do
      let (key, ts) ← orEmpty [.key, .value, .blockEnd] (read n .member) ts
      let (value, ts) ← afterColon [.key, .value, .blockEnd] (read n .member) ts
      let (members, ts) ← readMembers n ts
      return ((key, value) :: members, ts)
    | .blockEnd :: ts => some ([], ts)
    | _ => none

/-- The items of a flow list, up to its end; an item with a key is a map of one member. -/
def readFlowItems : (steps : Nat) → (isFirst : Bool) → List Token → Option (List Node × List Token)
  | 0, _, _ => none
  | n + 1, isFirst, ts =>
    match ts with
    | .flowListEnd :: ts => some ([], ts)
    | _ => do
      match ← if isFirst then some ts else afterComma ts with
      | .flowListEnd :: ts => return ([], ts)
      | .key :: ts =>
        let (key, ts) ← orEmpty [.value, .comma, .flowListEnd] (read n .flow) ts
        let (value, ts) ← afterColon [.comma, .flowListEnd] (read n .flow) ts
        let (items, ts) ← readFlowItems n false ts
        return (.map [(key, value)] :: items, ts)
      | ts =>
        let (item, ts) ← read n .flow ts
        let (items, ts) ← readFlowItems n false ts
        return (item :: items, ts)

/-- The members of a flow map, up to its end; a node that is no key is one with an empty value. -/
def readFlowMembers : (steps : Nat) → (isFirst : Bool) → List Token → Option (List (Node × Node) × List Token)
  | 0, _, _ => none
  | n + 1, isFirst, ts =>
    match ts with
    | .flowMapEnd :: ts => some ([], ts)
    | _ => do
      match ← if isFirst then some ts else afterComma ts with
      | .flowMapEnd :: ts => return ([], ts)
      | .key :: ts =>
        let (key, ts) ← orEmpty [.value, .comma, .flowMapEnd] (read n .flow) ts
        let (value, ts) ← afterColon [.comma, .flowMapEnd] (read n .flow) ts
        let (members, ts) ← readFlowMembers n false ts
        return ((key, value) :: members, ts)
      | ts =>
        let (key, ts) ← read n .flow ts
        let (members, ts) ← readFlowMembers n false ts
        return ((key, empty) :: members, ts)

end

mutual

/-- How many collections lie around the innermost node. -/
def depth : Node → Nat
  | scalar _ => 0
  | list items => depthOfItems items + 1
  | map members => depthOfMembers members + 1

/-- The depth of the deepest item. -/
def depthOfItems : List Node → Nat
  | [] => 0
  | item :: items => max item.depth (depthOfItems items)

/-- The depth of the deepest key or value. -/
def depthOfMembers : List (Node × Node) → Nat
  | [] => 0
  | (key, value) :: members => max (max key.depth value.depth) (depthOfMembers members)

end

/-- The deepest nesting that is read. -/
def maxDepth : Nat := 128

/-- A document up to the end of the text or the marks that end it. -/
def ofTokens? (ts : List Token) : Option Node := do
  let steps := 2 * ts.length + 2
  let (node, rest) ← match ts with
    | [] => some (empty, [])
    | .documentStart :: [] => some (empty, [])
    | .documentStart :: ts => orEmpty [.documentStart, .documentEnd] (read steps .block) ts
    | ts => read steps .block ts
  if (rest.dropWhile (· = .documentEnd)).isEmpty ∧ node.depth ≤ maxDepth then some node else none

/-- The node that a text writes. -/
def ofText? (text : List Char) : Option Node := (Token.ofText? text).bind ofTokens?

end Node

end FlowSuite.Yaml
