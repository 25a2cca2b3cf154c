import FlowSuite.Files.Pathname

/-!
# Storage of files

What a program wants of the place where its files are, in any monad in which that place lives (`Storage`), and folders
and files as a value (`FileTree`), which is such a place. A place in a tree is the list of names on the way to it; two
points lead one folder up, and every other name has to be a folder before anything behind it is reached.

- a file that is written holds its text (`lookup?_setFile_self`), and nothing else changes (`lookup?_setFile_of_ne`).
-/

namespace FlowSuite

/-- Why a file cannot be read or written. -/
inductive FileError where
  | notFound
  | notFolder
  | isFolder
  | alreadyThere
  | other (text : String)
deriving DecidableEq, Repr

namespace FileError

/-- A system error with its number. -/
def numbered (text : String) (number : Nat) : String := text ++ " (os error " ++ toString number ++ ")"

/-- The error in words. -/
def message : FileError → String
  | notFound => numbered "No such file or directory" 2
  | alreadyThere => numbered "File exists" 17
  | notFolder => numbered "Not a directory" 20
  | isFolder => numbered "Is a directory" 21
  | other text => text

end FileError

/-- A place for files. -/
structure Storage (m : Type → Type) where
  /-- The text of a file. -/
  read : (path : String) → m (Except FileError String)
  /-- Makes a folder and all folders it lies in, as far as they are not there. -/
  makeFolders : (path : String) → m (Except FileError Unit)
  /-- Gives a file a text. -/
  write : (path text : String) → m (Except FileError Unit)

/-! ## File trees -/

/-- The names on the way from the folder that is current. -/
abbrev Place := List String

/-- Files with their texts, and the folders they lie in. -/
structure FileTree where
  files : List (Place × String)
  folders : List Place
deriving DecidableEq, Repr

namespace FileTree

/-- What is in a place. -/
inductive Entry where
  | file (text : String)
  | folder
deriving DecidableEq, Repr

/-- The place of the root of rooted paths. -/
def root : Place := ["/"]

/-- The current folder and the root are always there. -/
def lookup? (t : FileTree) (p : Place) : Option Entry :=
  if p = [] ∨ p = root ∨ p ∈ t.folders then some .folder
  else (t.files.find? (·.1 = p)).map fun f => .file f.2

/-- With a folder. -/
def addFolder (t : FileTree) (p : Place) : FileTree := { t with folders := p :: t.folders }

/-- With a text in a file. -/
def setFile (t : FileTree) (p : Place) (text : String) : FileTree :=
  { t with files := (p, text) :: t.files.filter (·.1 ≠ p) }

@[simp] theorem lookup?_addFolder (t : FileTree) (p q : Place) :
    (t.addFolder p).lookup? q = if q = p then some .folder else t.lookup? q := by
  by_cases h : q = p
  · simp [lookup?, addFolder, h]
  · simp [lookup?, addFolder, h]

theorem lookup?_setFile_self {t : FileTree} {p : Place} (h : t.lookup? p ≠ some .folder) (text : String) :
    (t.setFile p text).lookup? p = some (.file text) := by
  unfold lookup? at h ⊢
  split at h
  · exact absurd rfl h
  next hp => simp [setFile, hp]

theorem lookup?_setFile_of_ne {p q : Place} (h : q ≠ p) (t : FileTree) (text : String) :
    (t.setFile p text).lookup? q = t.lookup? q := by
  have hf : (t.setFile p text).files.find? (·.1 = q) = t.files.find? (·.1 = q) := by
    simp only [setFile, List.find?_cons, Ne.symm h, decide_false, List.find?_filter]
    congr 1
    funext f
    by_cases hq : f.1 = q
    · simp [hq, h]
    · simp [hq]
  unfold lookup?
  rw [hf]
  rfl

/-- All places that a place lies in. -/
def around (p : Place) : List Place := (List.range p.length).map p.take

/-- The tree of files under their paths. -/
def ofFiles (files : List (String × String)) : FileTree :=
  { files := files.map fun (path, text) => (Pathname.parts path, text)
    folders := files.flatMap fun (path, _) => around (Pathname.parts path) }

/-- The folder that names lead to from a folder. -/
def enter (t : FileTree) (here : Place) : List String → Except FileError Place
  | [] => .ok here
  | name :: names =>
    if name = "." then t.enter here names
    else if name = ".." then t.enter (if here = root then root else here.dropLast) names
    else
      match t.lookup? (here ++ [name]) with
      | some .folder => t.enter (here ++ [name]) names
      | some (.file _) => .error .notFolder
      | none => .error .notFound

/-- Where a path starts. -/
def origin (path : String) : Place := if Pathname.isRooted path then root else []

/-- Ends in a slash, so that only a folder can be meant. -/
def meansFolder (path : String) : Bool := path.toList.getLast? = some '/'

/-- The place that a path leads to, the folder it lies in being there. -/
def locate (t : FileTree) (path : String) : Except FileError Place :=
  let names := ((Pathname.toParts path.toList).filter fun part => !part.isEmpty).map String.ofList
  match names.reverse with
  | [] => .ok (origin path)
  | name :: before =>
    if name = "." ∨ name = ".." then t.enter (origin path) names
    else (t.enter (origin path) before.reverse).map fun folder => folder ++ [name]

/-- The text of the file that a path leads to. -/
def read (t : FileTree) (path : String) : Except FileError String :=
  if path.isEmpty then .error .notFound
  else do
    match t.lookup? (← t.locate path) with
    | some (.file text) => if meansFolder path then .error .notFolder else .ok text
    | some .folder => .error .isFolder
    | none => .error .notFound

/-- The tree with a text in the file that a path leads to. -/
def write (t : FileTree) (path text : String) : Except FileError FileTree :=
  if path.isEmpty then .error .notFound
  else do
    let p ← t.locate path
    if meansFolder path ∨ t.lookup? p = some .folder then .error .isFolder else .ok (t.setFile p text)

/-- The tree with a folder where a path leads to, the folder it lies in being there. -/
def makeFolder (t : FileTree) (path : String) : Except FileError FileTree := do
  let p ← t.locate path
  if (t.lookup? p).isSome then .error .alreadyThere else .ok (t.addFolder p)

/-- Is a folder. -/
def isFolder (t : FileTree) (path : String) : Bool :=
  match t.locate path with
  | .ok p => t.lookup? p = some .folder
  | .error _ => false

/-- Makes the folder of some parts, given last first, and where it does not lie in one, that folder before. -/
def makeFoldersOf (start : String) (t : FileTree) : List String → Except FileError FileTree
  | [] => .ok t
  | part :: before =>
    let path := start ++ "/".intercalate (part :: before).reverse
    let present (t : FileTree) : Except FileError FileTree → Except FileError FileTree
      | .ok made => .ok made
      | .error e => if t.isFolder path then .ok t else .error e
    match t.makeFolder path with
    | .error .notFound => do
      let t ← makeFoldersOf start t before
      present t (t.makeFolder path)
    | result => present t result

/-- Makes a folder and all folders it lies in. -/
def makeFolders (t : FileTree) (path : String) : Except FileError FileTree :=
  makeFoldersOf (if Pathname.isRooted path then "/" else "") t (Pathname.parts path).reverse

/-- A change that may fail, and then leaves the tree as it is. -/
def attempt (change : FileTree → Except FileError FileTree) : StateM FileTree (Except FileError Unit) := fun t =>
  match change t with
  | .ok t' => (.ok (), t')
  | .error e => (.error e, t)

/-- A tree as the place for files. -/
def storage : Storage (StateM FileTree) where
  read path := fun t => (t.read path, t)
  makeFolders path := attempt fun t => t.makeFolders path
  write path text := attempt fun t => t.write path text

end FileTree

end FlowSuite
