import FlowSuite.Text.Class

/-!
# API descriptions

Of the description of an API test generation reads the servers, the operations under each path, and the security
schemes.

- `OperationIndex.get?` finds an operation by its id in the index of an API: the first one in the order of paths, and
  within a path in the order of methods;
- `ApiDocument.securityHeader` chooses the header that carries the key.
-/

namespace FlowSuite

/-- The methods of requests. -/
inductive HttpMethod where
  | get
  | put
  | post
  | delete
  | options
  | head
  | patch
  | trace
deriving DecidableEq, Repr

namespace HttpMethod

/-- All methods in their order. -/
def all : List HttpMethod := [get, put, post, delete, options, head, patch, trace]

/-- The name of a method as it is sent. -/
def name : HttpMethod → String
  | get => "GET"
  | put => "PUT"
  | post => "POST"
  | delete => "DELETE"
  | options => "OPTIONS"
  | head => "HEAD"
  | patch => "PATCH"
  | trace => "TRACE"

/-- The key of a method in a description. -/
def key : HttpMethod → String
  | get => "get"
  | put => "put"
  | post => "post"
  | delete => "delete"
  | options => "options"
  | head => "head"
  | patch => "patch"
  | trace => "trace"

end HttpMethod

/-- What can be called under a path with a method. -/
structure Operation where
  operationId : Option String
  summary : Option String
deriving DecidableEq, Repr

/-- The operations under one path. -/
structure PathItem where
  operation? : HttpMethod → Option Operation

namespace PathItem

/-- The declared operations in the order of methods. -/
def operations (item : PathItem) : List (HttpMethod × Operation) :=
  HttpMethod.all.filterMap fun m => (item.operation? m).map fun op => (m, op)

end PathItem

/-- A way to authorise requests. -/
structure SecurityScheme where
  type : Option String
  name : Option String
  location : Option String
  scheme : Option String
  reference : Option String
deriving DecidableEq, Repr

/-- A description of an API. -/
structure ApiDocument where
  version : String
  servers : List String
  paths : List (String × PathItem)
  securitySchemes : List (String × SecurityScheme)

/-- An operation with the path and method it is called by. -/
structure Endpoint where
  path : String
  method : HttpMethod
  operation : Operation
deriving DecidableEq, Repr

/-- The header that carries the key, and what is written before the key. -/
structure SecurityHeader where
  name : String
  lead : String
deriving DecidableEq, Repr

namespace ApiDocument

/-- The address of the first server; empty where none is declared. -/
def serverUrl (d : ApiDocument) : String := d.servers.head?.getD ""

/-- All operations with their paths and methods. -/
def endpoints (d : ApiDocument) : List Endpoint :=
  d.paths.flatMap fun (path, item) => item.operations.map fun (method, op) => ⟨path, method, op⟩

/-- The operations that have an id, by their ids. -/
def identified (d : ApiDocument) : List (String × Endpoint) :=
  d.endpoints.filterMap fun e => e.operation.operationId.map fun id => (id, e)

end ApiDocument

/-- Operations by id. -/
structure OperationIndex where
  entries : List (String × Endpoint)

namespace OperationIndex

/-- Adds an operation unless its id is there already. -/
def add (index : OperationIndex) (id : String) (e : Endpoint) : OperationIndex :=
  if index.entries.any (·.1 = id) then index else ⟨index.entries ++ [(id, e)]⟩

/-- The operation with an id. -/
def get? (index : OperationIndex) (id : String) : Option Endpoint := (index.entries.find? (·.1 = id)).map Prod.snd

/-- The number of ids. -/
def size (index : OperationIndex) : Nat := index.entries.length

/-- The operations of a description by id; of two with one id the first counts. -/
def ofDocument (d : ApiDocument) : OperationIndex :=
  d.identified.foldl (fun index (id, e) => index.add id e) ⟨[]⟩

end OperationIndex

namespace SecurityScheme

/-- Sends a key in a header. -/
def isHeaderKey (s : SecurityScheme) : Bool :=
  s.reference.isNone && s.type = some "apiKey" && s.location = some "header"

/-- Sends a bearer token. -/
def isBearer (s : SecurityScheme) : Bool :=
  s.reference.isNone && s.type = some "http" &&
    s.scheme.any fun scheme => scheme.toList.map Char.toLower = "bearer".toList

/-- The header of a key; one whose name speaks of a bearer gets the word before the key. -/
def keyHeader? (s : SecurityScheme) : Option SecurityHeader :=
  s.name.map fun name =>
    ⟨name, if Text.occursIn "bearer".toList (name.toList.map Char.toLower) then "Bearer " else ""⟩

end SecurityScheme

namespace ApiDocument

/-- The header of the first scheme that sends a key in a header. -/
def keyHeader? (d : ApiDocument) : Option SecurityHeader :=
  (d.securitySchemes.find? (·.2.isHeaderKey)).bind (·.2.keyHeader?)

/-- The header for every request: that of a key, else that of a bearer token, else a bare one. -/
def securityHeader (d : ApiDocument) : SecurityHeader :=
  d.keyHeader?.getD ⟨"Authorization", if d.securitySchemes.any (·.2.isBearer) then "Bearer " else ""⟩

end ApiDocument

end FlowSuite
