import FlowSuite.Document.Reading
import FlowSuite.Files.Pathname
import FlowSuite.Files.Storage

/-!
# Documents in files

A workflow document names the API it is about by the first of its source descriptions: a path, which counts from the
folder of the document, or a location elsewhere, which is not read. The notation of both documents is left open: all
that loading asks of it is how to read a text (`parse?`).
-/

namespace FlowSuite

/-- Why a document cannot be had. -/
inductive DocumentError where
  | unreadable (path : String) (cause : FileError)
  | malformed (path : String)
  | noSource (path : String)
  | remoteSource (name url : String)
deriving DecidableEq, Repr

namespace DocumentError

/-- The code of the kind of error. -/
def code : DocumentError → String
  | unreadable .. => "E-DOC-001"
  | malformed .. => "E-DOC-002"
  | noSource .. => "E-DOC-003"
  | remoteSource .. => "E-DOC-004"

/-- The error in words. -/
def message : DocumentError → String
  | unreadable path cause => "failed to read " ++ path ++ ": " ++ cause.message
  | malformed path => "invalid YAML in " ++ path
  | noSource path => path ++ " declares no source descriptions"
  | remoteSource name url =>
    "source description '" ++ name ++ "' points at remote URL " ++ url ++ "; only local files are supported"

end DocumentError

variable {τ α : Type} [DataTree τ] {m : Type → Type} [Monad m]

/-- Reads a document from the text of the file at a path. -/
def documentOfText (parse? : String → Option τ) (read : τ → Option α) (path text : String) : Except DocumentError α :=
  match (parse? text).bind read with
  | some document => .ok document
  | none => .error (.malformed path)

/-- What stands between the scheme of a location and the rest. -/
def schemeMark : List Char := "://".toList

namespace SourceDescription

/-- The scheme of local files. -/
def fileScheme : List Char := "file://".toList

/-- Is not a local file. -/
def isRemote (s : SourceDescription) : Bool :=
  Text.occursIn schemeMark s.url.toList && !fileScheme.isPrefixOf s.url.toList

/-- The path that the location gives. -/
def path (s : SourceDescription) : String :=
  if fileScheme.isPrefixOf s.url.toList then String.ofList (s.url.toList.drop fileScheme.length) else s.url

end SourceDescription

/-- The path of the API of a document that is itself at a path. -/
def WorkflowDocument.sourcePath (d : WorkflowDocument) (path : String) : Except DocumentError String :=
  match d.sourceDescriptions with
  | [] => .error (.noSource path)
  | source :: _ =>
    if source.isRemote then .error (.remoteSource source.name source.url)
    else if Pathname.isRooted source.path then .ok source.path
    else .ok (Pathname.join ((Pathname.parent? path).getD "") source.path)

/-- A workflow document and the API it is about. -/
structure Sources where
  document : WorkflowDocument
  api : ApiDocument
  apiPath : String

namespace Sources

/-- The document in the file at a path. -/
def readDocument (parse? : String → Option τ) (storage : Storage m) (read : τ → Option α) (path : String) :
    m (Except DocumentError α) := do
  match ← storage.read path with
  | .ok text => return documentOfText parse? read path text
  | .error e => return .error (.unreadable path e)

/-- The workflow document at a path and its API. -/
def load (parse? : String → Option τ) (storage : Storage m) (path : String) : m (Except DocumentError Sources) := do
  match ← readDocument parse? storage WorkflowDocument.read path with
  | .error e => return .error e
  | .ok document =>
    match document.sourcePath path with
    | .error e => return .error e
    | .ok apiPath =>
      match ← readDocument parse? storage ApiDocument.read apiPath with
      | .error e => return .error e
      | .ok api => return .ok ⟨document, api, apiPath⟩

end Sources

end FlowSuite
