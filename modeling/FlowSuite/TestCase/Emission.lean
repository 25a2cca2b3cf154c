import FlowSuite.TestCase.Diagnostic

/-!
# What emission keeps

Tests are emitted in one pass: workflow by workflow, step by step, criterion by criterion. A record goes along
(`Emission`): the kinds of assertions that were made, whether one of them queries a path, and the reports. Within a
workflow there is a store besides, of the keys that its steps write (`ContextStore`).
-/

namespace FlowSuite

/-! ## The context -/

/-- The key under which a step writes an output. -/
def outputKey (stepId name : String) : String := stepId ++ ".outputs." ++ name

/-- The keys that the steps emitted so far write. -/
structure ContextStore where
  keys : List String
deriving DecidableEq, Repr

namespace ContextStore

/-- Nothing is written. -/
def empty : ContextStore := ⟨[]⟩

/-- Records a write. -/
def record (store : ContextStore) (key : String) : ContextStore := ⟨store.keys.insert key⟩

/-- Records writes, one after the other. -/
def recordAll (store : ContextStore) (keys : List String) : ContextStore := keys.foldl record store

/-- Some step writes the key. -/
def isWritten (store : ContextStore) (key : String) : Bool := key ∈ store.keys

@[simp] theorem not_isWritten_empty (key : String) : empty.isWritten key = false := rfl

@[simp] theorem isWritten_record (store : ContextStore) (key k : String) :
    (store.record key).isWritten k = true ↔ k = key ∨ store.isWritten k = true := by
  simp [isWritten, record]

theorem recordAll_append (store : ContextStore) (keys more : List String) :
    store.recordAll (keys ++ more) = (store.recordAll keys).recordAll more :=
  List.foldl_append

theorem isWritten_recordAll (store : ContextStore) (keys : List String) (k : String) :
    (store.recordAll keys).isWritten k = true ↔ k ∈ keys ∨ store.isWritten k = true := by
  unfold recordAll
  induction keys generalizing store with
  | nil => simp
  | cons key keys ih => rw [List.foldl_cons, ih, isWritten_record, List.mem_cons, or_assoc, or_left_comm]

end ContextStore

/-! ## Criteria -/

/-- A criterion and what became of it. -/
structure Check where
  criterion : Criterion
  result : Except CompileError (List Assertion)

namespace Check

/-- The assertions that were made. -/
def assertions (c : Check) : List Assertion :=
  match c.result with
  | .ok as => as
  | .error _ => []

/-- Queries a path. -/
def queriesPath (c : Check) : Bool :=
  match c.result with
  | .ok _ => c.criterion.kind? = some .jsonPath
  | .error _ => false

/-- The report, where the criterion does not compile. -/
def diagnostic? (workflowId stepId : String) (c : Check) : Option Diagnostic :=
  match c.result with
  | .ok _ => none
  | .error e => some (.ofError workflowId stepId c.criterion.condition e)

end Check

/-- What is on record while tests are emitted. -/
structure Emission where
  /-- The kinds of the assertions that were made. -/
  used : UsedKinds
  /-- One of them is on a path query. -/
  queriesPath : Bool
  diagnostics : List Diagnostic

namespace Emission

/-- Nothing is on record. -/
def empty : Emission := ⟨.empty, false, []⟩

/-- Adds reports. -/
def report (emission : Emission) (reports : List Diagnostic) : Emission :=
  { emission with diagnostics := emission.diagnostics ++ reports }

/-- Compiles a criterion. What it uses goes on record only if it compiles. -/
def check (emission : Emission) (context : String) (c : Criterion) (s : Scope) : (Check × Emission) × Scope :=
  let compiled := c.compileIn context s emission.used
  let check : Check := ⟨c, compiled.result⟩
  ((check, { emission with
      used := compiled.used
      queriesPath := emission.queriesPath || check.queriesPath }), compiled.scope)

end Emission

/-- Compiles the criteria of a step one after the other. -/
def compileChecks (context : String) : List Criterion → Emission → Scope → (List Check × Emission) × Scope
  | [], emission, s => (([], emission), s)
  | c :: cs, emission, s =>
    let ((check, emission), s) := emission.check context c s
    let ((checks, emission), s) := compileChecks context cs emission s
    ((check :: checks, emission), s)

end FlowSuite
