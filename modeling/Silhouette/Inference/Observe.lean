import Silhouette.Inference.Fold
import Silhouette.Json.Basic

/-!
# From samples to types

`observe` registers the type of a sample and answers its id.  The sample is visited in document
order; at every place the depth is looked at first, then whether the value is a marker, then its
parts.  So the first place where something is wrong decides the error.

Three functions run an inference from nothing and answer the pruned graph:

* `inferValue` — one sample;
* `inferSamples` — several samples, taken as the elements of one list;
* `inferQuery` — the results of the statements of a query, which become the fields of one object.
-/

set_option autoImplicit false

namespace Silhouette

/-- How deep a value may lie unless something else is said. -/
def defaultMaxDepth : Nat := 256

namespace Inference

/-- Refuse a place that lies deeper than `limit`. -/
def checkDepth (limit : Nat) (path : Path) : Inference Unit :=
  if limit < path.depth then throw (.depthExceeded path limit) else return ()

/-- The list type over the fold of the element types. -/
def closeList (members : TypeSet) : Inference TypeId := do
  intern (.array (← fold members))

mutual

/-- The type of the value at `path`. -/
def observeAt (limit : Nat) (path : Path) : Json → Inference TypeId
  | .null => do
    checkDepth limit path
    return .scalar .null
  | .bool _ => do
    checkDepth limit path
    return .scalar .boolean
  | .number _ => do
    checkDepth limit path
    return .scalar .number
  | .string _ => do
    checkDepth limit path
    return .scalar .string
  | .array items => do
    checkDepth limit path
    closeList (← observeItems limit path 0 ∅ items)
  | .object members => do
    checkDepth limit path
    match Marker.read? members with
    | some (.ok kind) => return .scalar kind
    | some (.error fault) => throw (.classification path fault)
    | none => intern (.object (← observeMembers limit path ∅ members))

/-- The types of the elements of a list, from the element `index` on, and those met before. -/
def observeItems (limit : Nat) (path : Path) (index : Nat) (met : TypeSet) :
    List Json → Inference TypeSet
  | [] => return met
  | v :: rest => do
    let id ← observeAt limit (path.push (.index index)) v
    observeItems limit path (index + 1) (met.insert id) rest

/-- The fields for the members of an object, and those met before. -/
def observeMembers (limit : Nat) (path : Path) (met : Fields) :
    List (String × Json) → Inference Fields
  | [] => return met
  | (key, v) :: rest => do
    let id ← observeAt limit (path.push (.key key)) v
    observeMembers limit path (met.set key ⟨.required, id⟩) rest

end

/-- The type of a sample. -/
def observe (limit : Nat) (v : Json) : Inference TypeId := observeAt limit .root v

/-- The type of a list whose elements are the samples. -/
def observeSamples (limit : Nat) (vs : List Json) : Inference TypeId := do
  closeList (← observeItems limit .root 0 ∅ vs)

/-- The key for the result of the statement with the given number, counted from 1. -/
def statementKey (query : String) (number : Nat) : String :=
  query ++ "_query" ++ toString number

/-- The type of an object with one field for each result. -/
def observeQuery (limit : Nat) (query : String) (results : List Json) : Inference TypeId := do
  if !Text.isQueryId query then throw (.invalidQueryId query)
  let members := results.mapIdx fun i v ↦ (statementKey query (i + 1), v)
  intern (.object (← observeMembers limit .root ∅ members))

/-- Run an inference from nothing and keep what its answer reaches. -/
def structure? (x : Inference TypeId) : Except InferenceError Structure :=
  match x.run ∅ with
  | (.ok root, types) => .ok (Structure.prune ⟨root, types⟩)
  | (.error e, _) => .error e

end Inference

/-- The type of one sample. -/
def inferValue (limit : Nat) (v : Json) : Except InferenceError Structure :=
  (Inference.observe limit v).structure?

/-- The type of a list of samples. -/
def inferSamples (limit : Nat) (vs : List Json) : Except InferenceError Structure :=
  (Inference.observeSamples limit vs).structure?

/-- The type of the results of a query. -/
def inferQuery (limit : Nat) (query : String) (results : List Json) :
    Except InferenceError Structure :=
  (Inference.observeQuery limit query results).structure?

end Silhouette
