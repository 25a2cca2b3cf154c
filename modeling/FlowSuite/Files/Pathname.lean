/-!
# Pathnames

A pathname is parts with slashes between them; with a slash in front it starts at the root. Empty parts and single
points are idle: they lead nowhere (`isIdle`).

- splitting a path and joining its parts gives the path back (`ofParts_toParts`);
- a path joined to the empty folder is the path itself (`join_empty`).
-/

namespace FlowSuite.Pathname

/-- Puts a character in front of the first part. -/
def consFirst (c : Char) : List (List Char) → List (List Char)
  | [] => [[c]]
  | part :: parts => (c :: part) :: parts

/-- The parts of a path, at least one. -/
def toParts : List Char → List (List Char)
  | [] => [[]]
  | c :: cs => if c = '/' then [] :: toParts cs else consFirst c (toParts cs)

/-- The path of parts. -/
def ofParts (parts : List (List Char)) : List Char := ['/'].intercalate parts

theorem toParts_ne_nil (cs : List Char) : toParts cs ≠ [] := by
  cases cs with
  | nil => exact List.cons_ne_nil _ _
  | cons c cs =>
    unfold toParts
    split
    · exact List.cons_ne_nil _ _
    · cases toParts cs <;> exact List.cons_ne_nil _ _

theorem ofParts_cons (part : List Char) {parts : List (List Char)} (h : parts ≠ []) :
    ofParts (part :: parts) = part ++ '/' :: ofParts parts := by
  obtain ⟨p, more, rfl⟩ := List.exists_cons_of_ne_nil h
  simp [ofParts, List.intercalate, List.intersperse]

theorem ofParts_consFirst (c : Char) (parts : List (List Char)) : ofParts (consFirst c parts) = c :: ofParts parts := by
  match parts with
  | [] => rfl
  | [part] => rfl
  | part :: p :: more =>
    rw [consFirst, ofParts_cons _ (List.cons_ne_nil _ _), ofParts_cons _ (List.cons_ne_nil _ _), List.cons_append]

@[simp] theorem ofParts_toParts (cs : List Char) : ofParts (toParts cs) = cs := by
  induction cs with
  | nil => rfl
  | cons c cs ih =>
    unfold toParts
    split
    next h => rw [ofParts_cons _ (toParts_ne_nil cs), ih, h, List.nil_append]
    next => rw [ofParts_consFirst, ih]

/-- Starts at the root. -/
def isRooted (path : String) : Bool := path.toList.head? = some '/'

/-- Leads nowhere. -/
def isIdle (part : List Char) : Bool := part = [] || part = ['.']

/-- Parts, the last first, without those at the end that are idle. A point that begins an unrooted path stays. -/
def dropIdle (rooted : Bool) : List (List Char) → List (List Char)
  | [] => []
  | part :: before =>
    if part = [] ∨ (part = ['.'] ∧ (rooted ∨ before ≠ [])) then dropIdle rooted before else part :: before

/-- The path without its last part; the root and the empty path have none. -/
def parent? (path : String) : Option String :=
  let rooted := isRooted path
  let root := if rooted then ['/'] else []
  let parts := toParts (if rooted then path.toList.drop 1 else path.toList)
  match dropIdle rooted parts.reverse with
  | [] => none
  | _ :: before => some (String.ofList (root ++ ofParts (dropIdle rooted before).reverse))

/-- A path inside a folder. -/
def join (folder path : String) : String :=
  if folder.toList.isEmpty ∨ folder.toList.getLast? = some '/' then folder ++ path else folder ++ "/" ++ path

@[simp] theorem join_empty (path : String) : join "" path = path := by simp [join]

/-- The parts of a path that lead somewhere. -/
def parts (path : String) : List String :=
  ((toParts path.toList).filter fun part => !isIdle part).map String.ofList

end FlowSuite.Pathname
