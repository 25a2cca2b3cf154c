import FlowSuite.Proofs.TestCase.Outcomes
import Mathlib.Data.Set.Card

/-!
# The first declaration of an operation counts

The operations of a description stand in an order: that of the paths, and under one path that of the methods
(`HttpMethod.turn`). `ApiDocument.First` says which operation is the first one with an id.

* The index adds an operation only where its id is new. So what is found under an id is what was there already, or else
  the first one that was added (`OperationIndex.get?_foldl`), and every id is there once
  (`OperationIndex.nodup_ids_foldl`).
* All operations of a description are searched in that order (`ApiDocument.find?_endpoints_eq_some_iff`), so its index
  holds the first one with each id (`OperationIndex.get?_ofDocument_eq_some_iff`).
* A step is made into the same test by every description that begins with the same operations, up to the first one with
  the id of the step (`ofDocument_first`).
-/

namespace FlowSuite

/-! ## The order of operations -/

/-- The turn of a method among the operations under a path. -/
def HttpMethod.turn : HttpMethod → Nat
  | get => 0
  | put => 1
  | post => 2
  | delete => 3
  | options => 4
  | head => 5
  | patch => 6
  | trace => 7

namespace PathItem

/-- No operation has the id. -/
def Lacks (item : PathItem) (id : String) : Prop :=
  ∀ m op, item.operation? m = some op → op.operationId ≠ some id

/-- The operation under a method has the id, and none under a method whose turn is earlier. -/
structure First (item : PathItem) (id : String) (m : HttpMethod) (op : Operation) : Prop where
  declared : item.operation? m = some op
  hasId : op.operationId = some id
  first : ∀ n other, n.turn < m.turn → item.operation? n = some other → other.operationId ≠ some id

end PathItem

namespace ApiDocument

/-- An operation has the id and stands in front of all others that have it. -/
def First (d : ApiDocument) (id : String) (e : Endpoint) : Prop :=
  ∃ before item after, d.paths = before ++ (e.path, item) :: after ∧ (∀ p ∈ before, p.2.Lacks id) ∧
    item.First id e.method e.operation

/-- The ids of all operations. -/
def ids (d : ApiDocument) : Set String :=
  {id | ∃ p ∈ d.paths, ∃ m op, p.2.operation? m = some op ∧ op.operationId = some id}

/-- Another description of the same API that has the same operations up to the first one with an id, and any operations
behind it. -/
def SameUpTo (d : ApiDocument) (id : String) (d' : ApiDocument) : Prop :=
  ∃ before path item after m op item' after', d.paths = before ++ (path, item) :: after ∧
    (∀ p ∈ before, p.2.Lacks id) ∧ item.First id m op ∧
    d' = { d with paths := before ++ (path, item') :: after' } ∧
    ∀ n, n.turn ≤ m.turn → item'.operation? n = item.operation? n

end ApiDocument

/-! ## Searching in that order -/

namespace HttpMethod

theorem mem_all (m : HttpMethod) : m ∈ all := by
  cases m <;> decide

theorem pairwise_all : all.Pairwise fun m n => m.turn < n.turn := by
  decide

/-- What is found first among all methods is that with the earliest turn. -/
theorem find?_all_eq_some_iff {p : HttpMethod → Bool} {m : HttpMethod} :
    all.find? p = some m ↔ p m ∧ ∀ n, n.turn < m.turn → ¬p n := by
  rw [List.find?_eq_some_iff_append]
  -- the list is sorted by turns, so the methods in front of `m` are those with an earlier turn
  refine and_congr_right fun _ => ⟨?_, fun h => ?_⟩
  · rintro ⟨before, after, hall, hbefore⟩ n hn
    have hsorted := hall ▸ pairwise_all
    rw [List.pairwise_append, List.pairwise_cons] at hsorted
    have hmem : n ∈ before ++ m :: after := hall ▸ mem_all n
    rw [List.mem_append, List.mem_cons] at hmem
    obtain hmem | rfl | hmem := hmem
    · simpa using hbefore n hmem
    · exact absurd hn (Nat.lt_irrefl _)
    · exact absurd (hsorted.2.1.1 n hmem) (Nat.lt_asymm hn)
  · obtain ⟨before, after, hall⟩ := List.append_of_mem (mem_all m)
    have hsorted := hall ▸ pairwise_all
    refine ⟨before, after, hall, fun n hn => ?_⟩
    simpa using h n ((List.pairwise_append.mp hsorted).2.2 n hn m List.mem_cons_self)

end HttpMethod

variable {id : String} {e : Endpoint}

/-- The operations of an item with the path it stands under. -/
theorem PathItem.map_operations (item : PathItem) (path : String) :
    (item.operations.map fun (m, op) => Endpoint.mk path m op) =
      HttpMethod.all.filterMap fun m => (item.operation? m).map (Endpoint.mk path m) := by
  rw [PathItem.operations, List.map_filterMap]
  simp only [Option.map_map]
  rfl

/-- **Under one path the first operation with an id is found.** -/
theorem PathItem.find?_operations_eq_some_iff {item : PathItem} {path : String} :
    (item.operations.map fun (m, op) => Endpoint.mk path m op).find? (·.operation.operationId = some id) = some e ↔
      e.path = path ∧ item.First id e.method e.operation := by
  rw [map_operations, List.find?_filterMap, Option.bind_eq_some_iff]
  simp only [HttpMethod.find?_all_eq_some_iff, Option.map_eq_some_iff, Option.any_map, Option.any_eq_true,
    decide_eq_true_eq]
  constructor
  · rintro ⟨m, ⟨⟨_, hop', hid⟩, hfirst⟩, op, hop, rfl⟩
    cases hop.symm.trans hop'
    exact ⟨rfl, hop, hid, fun n other hn hother hid' => hfirst n hn ⟨other, hother, hid'⟩⟩
  · rintro ⟨rfl, hop, hid, hfirst⟩
    exact ⟨e.method, ⟨⟨_, hop, hid⟩, fun n hn ⟨other, hother, hid'⟩ => hfirst n other hn hother hid'⟩, _, hop, rfl⟩

theorem PathItem.find?_operations_eq_none_iff {item : PathItem} {path : String} :
    (item.operations.map fun (m, op) => Endpoint.mk path m op).find? (·.operation.operationId = some id) = none ↔
      item.Lacks id := by
  rw [map_operations, List.find?_eq_none]
  simp only [List.mem_filterMap, Option.map_eq_some_iff, decide_eq_true_eq]
  constructor
  · exact fun h m op hop => h _ ⟨m, HttpMethod.mem_all m, op, hop, rfl⟩
  · rintro h _ ⟨m, -, op, hop, rfl⟩
    exact h m op hop

/-- **Among all operations the first one with an id is found.** -/
theorem ApiDocument.find?_endpoints_eq_some_iff {d : ApiDocument} :
    d.endpoints.find? (·.operation.operationId = some id) = some e ↔ d.First id e := by
  rw [endpoints, List.find?_flatMap, List.findSome?_eq_some_iff]
  simp only [PathItem.find?_operations_eq_some_iff, PathItem.find?_operations_eq_none_iff]
  constructor
  · rintro ⟨before, ⟨_, item⟩, after, hpaths, ⟨rfl, hfirst⟩, hbefore⟩
    exact ⟨before, item, after, hpaths, hbefore, hfirst⟩
  · rintro ⟨before, item, after, hpaths, hbefore, hfirst⟩
    exact ⟨before, (e.path, item), after, hpaths, ⟨rfl, hfirst⟩, hbefore⟩

theorem ApiDocument.find?_endpoints_eq_none_iff {d : ApiDocument} :
    d.endpoints.find? (·.operation.operationId = some id) = none ↔ ∀ p ∈ d.paths, p.2.Lacks id := by
  rw [endpoints, List.find?_flatMap, List.findSome?_eq_none_iff]
  simp only [PathItem.find?_operations_eq_none_iff]

/-! ## The index -/

namespace OperationIndex

/-- The ids of an index. -/
def ids (index : OperationIndex) : List String := index.entries.map Prod.fst

variable {index : OperationIndex}

theorem add_of_mem (h : id ∈ index.ids) : index.add id e = index :=
  if_pos (by simpa [ids] using h)

theorem add_of_not_mem (h : id ∉ index.ids) : index.add id e = ⟨index.entries ++ [(id, e)]⟩ :=
  if_neg (by simpa [ids] using h)

theorem get?_eq_none_iff : index.get? id = none ↔ id ∉ index.ids := by
  rw [get?, Option.map_eq_none_iff, List.find?_eq_none, ids, List.mem_map, not_exists]
  simp

/-- An addition is found under its id where nothing was found before. -/
theorem get?_add (index : OperationIndex) (id id' : String) (e : Endpoint) :
    (index.add id e).get? id' = (index.get? id').or (if id = id' then some e else none) := by
  by_cases hmem : id ∈ index.ids
  · rw [add_of_mem hmem]
    split
    · next heq =>
      subst heq
      obtain ⟨found, hfound⟩ := Option.ne_none_iff_exists'.mp fun hnone => get?_eq_none_iff.mp hnone hmem
      rw [hfound, Option.some_or]
    · rw [Option.or_none]
  · rw [add_of_not_mem hmem, get?, get?, List.find?_append, Option.map_or]
    by_cases heq : id = id' <;> simp [heq]

/-- **What is found under an id** is what was found there before the additions, or else the first one of them. -/
theorem get?_foldl (added : List (String × Endpoint)) (index : OperationIndex) (id : String) :
    (added.foldl (fun index (id, e) => index.add id e) index).get? id =
      (index.get? id).or ((added.find? (·.1 = id)).map Prod.snd) := by
  induction added generalizing index with
  | nil => simp
  | cons first added ih =>
    rw [List.foldl_cons, ih, get?_add, Option.or_assoc, List.find?_cons]
    by_cases hfirst : first.1 = id <;> simp [hfirst]

/-- An addition leaves every id there once. -/
theorem nodup_ids_add (h : index.ids.Nodup) : (index.add id e).ids.Nodup := by
  by_cases hmem : id ∈ index.ids
  · rwa [add_of_mem hmem]
  · rw [add_of_not_mem hmem, ids, List.map_append]
    exact List.nodup_append.mpr ⟨h, List.nodup_singleton id, by grind [ids]⟩

theorem nodup_ids_foldl (added : List (String × Endpoint)) (h : index.ids.Nodup) :
    (added.foldl (fun index (id, e) => index.add id e) index).ids.Nodup := by
  induction added generalizing index with
  | nil => exact h
  | cons first added ih => exact ih (nodup_ids_add h)

/-! ## The index of a description -/

variable {d : ApiDocument}

theorem get?_ofDocument (d : ApiDocument) (id : String) :
    (ofDocument d).get? id = d.endpoints.find? (·.operation.operationId = some id) := by
  have hempty : (OperationIndex.mk []).get? id = none := rfl
  have hhas (e : Endpoint) : ((e.operation.operationId.map fun id => (id, e)).any fun p => p.1 = id) =
      decide (e.operation.operationId = some id) := by
    cases e.operation.operationId <;> simp
  rw [ofDocument, get?_foldl, hempty, Option.none_or, ApiDocument.identified, List.find?_filterMap]
  simp only [hhas]
  cases h : d.endpoints.find? (·.operation.operationId = some id) with
  | none => rfl
  | some e =>
    have hid : e.operation.operationId = some id := by simpa using List.find?_some h
    simp [hid]

/-- **The first operation with an id is found under it.** -/
theorem get?_ofDocument_eq_some_iff : (ofDocument d).get? id = some e ↔ d.First id e := by
  rw [get?_ofDocument, ApiDocument.find?_endpoints_eq_some_iff]

theorem get?_ofDocument_eq_none_iff : (ofDocument d).get? id = none ↔ ∀ p ∈ d.paths, p.2.Lacks id := by
  rw [get?_ofDocument, ApiDocument.find?_endpoints_eq_none_iff]

theorem mem_ids_ofDocument : id ∈ (ofDocument d).ids ↔ id ∈ d.ids := by
  rw [← not_iff_not, ← get?_eq_none_iff, get?_ofDocument_eq_none_iff]
  simp [ApiDocument.ids, PathItem.Lacks]

/-- **The index has one entry for each id.** -/
theorem size_ofDocument (d : ApiDocument) : (ofDocument d).size = d.ids.ncard := by
  have hids : d.ids = (ofDocument d).ids.toFinset := by
    ext id
    rw [List.coe_toFinset, Set.mem_ofPred_eq, mem_ids_ofDocument]
  have hnodup : (ofDocument d).ids.Nodup := nodup_ids_foldl d.identified List.nodup_nil
  rw [hids, Set.ncard_coe_finset, List.toFinset_card_of_nodup hnodup, ids, List.length_map]
  rfl

end OperationIndex

/-! ## Steps -/

/-- The first operation with an id is the first one in every description that is the same up to it. -/
theorem ApiDocument.SameUpTo.exists_first {d d' : ApiDocument} (h : d.SameUpTo id d') :
    ∃ e, d.First id e ∧ d'.First id e := by
  obtain ⟨before, path, item, after, m, op, item', after', hpaths, hbefore, hfirst, rfl, hsame⟩ := h
  refine ⟨⟨path, m, op⟩, ⟨before, item, after, hpaths, hbefore, hfirst⟩,
    ⟨before, item', after', rfl, hbefore, ⟨?_, hfirst.hasId, fun n other hn hother => ?_⟩⟩⟩
  · exact (hsame m (Nat.le_refl _)).trans hfirst.declared
  · exact hfirst.first n other hn ((hsame n (Nat.le_of_lt hn)).symm.trans hother)

theorem ApiDocument.SameUpTo.setting_eq {d d' : ApiDocument} (h : d.SameUpTo id d') (options : Options) :
    Setting.ofDocument d' options = { Setting.ofDocument d options with operations := .ofDocument d' } := by
  obtain ⟨_, _, _, _, _, _, _, _, _, _, _, rfl, _⟩ := h
  rfl

/-- A step is made into the test on the first operation with its id. -/
theorem testOf?_of_first {d : ApiDocument} (h : d.First id e) {step : Step} (hstep : step.operationId = some id)
    (options : Options) (workflowId : String) (written : ContextStore) :
    (Setting.ofDocument d options).testOf? workflowId written step =
      .ok ((Setting.ofDocument d options).testOf workflowId written step e) := by
  refine testOf?_eq_ok_iff.mpr ⟨e, ?_, rfl⟩
  rw [Setting.endpoint?, hstep]
  exact OperationIndex.get?_ofDocument_eq_some_iff.mpr h

/-- **The first declaration of an id counts.** The index of a description finds under an id the first operation that
has it, in the order of paths and methods, with its own path and method; it finds none exactly if no operation has the
id; and its size is the number of ids. So the test of a step on the id is that on its first declaration, whatever
operations stand behind it. -/
theorem ofDocument_first (d : ApiDocument) :
    (∀ id e, (OperationIndex.ofDocument d).get? id = some e ↔ d.First id e) ∧
    (∀ id, (OperationIndex.ofDocument d).get? id = none ↔ ∀ p ∈ d.paths, p.2.Lacks id) ∧
    (OperationIndex.ofDocument d).size = d.ids.ncard ∧
    ∀ id d', d.SameUpTo id d' → ∃ e, d.First id e ∧
      ∀ (options : Options) (workflowId : String) (written : ContextStore) (step : Step), step.operationId = some id →
        (Setting.ofDocument d options).testOf? workflowId written step =
          .ok ((Setting.ofDocument d options).testOf workflowId written step e) ∧
        (Setting.ofDocument d' options).testOf? workflowId written step =
          .ok ((Setting.ofDocument d options).testOf workflowId written step e) := by
  refine ⟨fun id e => OperationIndex.get?_ofDocument_eq_some_iff, fun id => OperationIndex.get?_ofDocument_eq_none_iff,
    OperationIndex.size_ofDocument d, fun id d' hsame => ?_⟩
  obtain ⟨e, hfirst, hfirst'⟩ := hsame.exists_first
  refine ⟨e, hfirst, fun options workflowId written step hstep =>
    ⟨testOf?_of_first hfirst hstep options workflowId written, ?_⟩⟩
  rw [testOf?_of_first hfirst' hstep, hsame.setting_eq]
  rfl

/-- The operations on parts: one that has no id, and one that adds a part. -/
def partItem : PathItem := ⟨fun | .get => some ⟨none, none⟩ | .post => some ⟨some "addPart", none⟩ | _ => none⟩

/-- The same operations, and another one behind them with the id of the second one. -/
def repeatedItem : PathItem := ⟨fun | .patch => some ⟨some "addPart", none⟩ | m => partItem.operation? m⟩

/-- An API for robots and their parts, with an item for the parts and any paths behind it. -/
def partApi (item : PathItem) (more : List (String × PathItem)) : ApiDocument where
  version := "3.1.0"
  servers := ["https://robots.example"]
  paths := ("/robots", ⟨fun | .trace => some ⟨some "traceRobots", none⟩ | _ => none⟩) :: ("/parts", item) :: more
  securitySchemes := []

/-- A part is still added under the first path where its id is declared under another method and another path too. -/
theorem ofDocument_first_repeatedPart :
    (partApi partItem []).SameUpTo "addPart" (partApi repeatedItem [("/parts/new", partItem)]) ∧
      ∃ t, (Setting.ofDocument (partApi partItem []) .default).testOf? "assemble" .empty
          ⟨"add", none, some "addPart", [], none, [], []⟩ = .ok t ∧
        (Setting.ofDocument (partApi repeatedItem [("/parts/new", partItem)]) .default).testOf? "assemble" .empty
          ⟨"add", none, some "addPart", [], none, [], []⟩ = .ok t := by
  have hsame : (partApi partItem []).SameUpTo "addPart" (partApi repeatedItem [("/parts/new", partItem)]) := by
    refine ⟨[("/robots", _)], "/parts", partItem, [], .post, ⟨some "addPart", none⟩, repeatedItem,
      [("/parts/new", partItem)], rfl, ?_, ⟨rfl, rfl, ?_⟩, rfl, ?_⟩
    · intro p hp m op hop
      obtain rfl := List.mem_singleton.mp hp
      cases m with
      | trace => cases hop; decide
      | _ => cases hop
    · intro n other hn hother
      cases n with
      | get => cases hother; decide
      | post => exact absurd hn (by decide)
      | _ => cases hother
    · intro n hn
      cases n with
      | patch => exact absurd hn (by decide)
      | _ => rfl
  obtain ⟨e, -, htest⟩ := (ofDocument_first (partApi partItem [])).2.2.2 "addPart" _ hsame
  exact ⟨hsame, _, htest .default "assemble" .empty _ rfl⟩

end FlowSuite
