import FlowSuite.Json.Value

/-!
# Trees of data

Documents are written in more than one notation, and each has its own idea of what counts as a text, a list or an
absent value. A model reads its fields through `DataTree`, which asks a notation for what the model wants.
-/

namespace FlowSuite

/-- A notation for data, seen as what a reader wants of it; `none` is a misfit. -/
class DataTree (τ : Type) where
  /-- Stands for an absent value where one may be absent. -/
  isAbsent : τ → Bool
  text? : τ → Option String
  value? : τ → Option Json
  list? : τ → Option (List τ)
  /-- A collection under keys of any name. -/
  members? : τ → Option (List (String × τ))
  /-- A record with fields of the given names. -/
  record? : (fields : List String) → τ → Option (List (String × τ))
  /-- The name of one of several alternatives. -/
  choice? : τ → Option String

namespace DataTree

variable {τ : Type} [DataTree τ] {α : Type}

/-- A field that has to be there. -/
def required (record : List (String × τ)) (name : String) (read : τ → Option α) : Option α :=
  (Json.member? name record).bind read

/-- A field that may be absent. -/
def optional (record : List (String × τ)) (name : String) (read : τ → Option α) : Option (Option α) :=
  match Json.member? name record with
  | none => some none
  | some t => if isAbsent t then some none else (read t).map some

/-- A field with a value for the case that it is not there. -/
def withDefault (record : List (String × τ)) (name : String) (default : α) (read : τ → Option α) : Option α :=
  match Json.member? name record with
  | none => some default
  | some t => read t

/-- A list, each item read. -/
def listOf (read : τ → Option α) (t : τ) : Option (List α) := (list? t).bind fun items => items.mapM read

/-- A collection, each member read. A key that comes again gives its member a new value. -/
def membersOf (read : τ → Option α) (t : τ) : Option (List (String × α)) :=
  (members? t).bind fun members =>
    Option.map Json.collectMembers (members.mapM fun (key, value) => (read value).map fun v => (key, v))

end DataTree

/-- In JSON a record may also be written as the list of its first fields. -/
instance : DataTree Json where
  isAbsent
    | .null => true
    | _ => false
  text? := Json.text?
  value? := some
  list?
    | .arr items => some items
    | _ => none
  members?
    | .obj members => some members
    | _ => none
  record? fields
    | .obj members => some members
    | .arr items => if items.length ≤ fields.length then some (fields.zip items) else none
    | _ => none
  choice?
    | .str name => some name
    | .obj [(name, .null)] => some name
    | _ => none

end FlowSuite
