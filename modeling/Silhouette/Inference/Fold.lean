import Silhouette.Graph.Structure
import Silhouette.Inference.Error

/-!
# Folding types

A list is summarised by one element type, and that type is the **fold** of the set of the types of
its elements.  `fold` looks at what the members are and applies the first rule that fits:

1. no members: the type without values;
2. one member: that member;
3. all lists: the list over the fold of the element types;
4. all objects: one object with every key of any of them, whose fields are folds again;
5. lists and `undefined`: the folded list or `undefined`;
6. objects and `undefined`: the folded object or `undefined`;
7. anything else: the union of the members.

Unions stay flat: a member that is itself a union gives its own members instead (`mergeUnion`).

An `Inference` computes with a registry that it may extend, and what it has registered stays when it
fails.  Rules 3 to 6 fold parts of the members, and parts are registered before what they are part
of; so the size of the registry bounds how deep the folds nest, although it grows meanwhile.
-/

set_option autoImplicit false

namespace Silhouette

/-- A computation over a registry; the registry stays as far as it got when the computation
fails. -/
abbrev Inference := ExceptT InferenceError (StateM Registry)

namespace Inference

/-- What two computations in a row do to a registry. -/
theorem run_bind {α β : Type} (x : Inference α) (f : α → Inference β) (r : Registry) :
    (x >>= f).run r =
      match x.run r with
      | (.ok a, r') => (f a).run r'
      | (.error e, r') => (.error e, r') := by
  show ((ExceptT.bind x f) r) = _
  simp only [ExceptT.bind, ExceptT.mk, bind, StateT.bind, ExceptT.run]
  rcases x r with ⟨_ | _, _⟩ <;> rfl

/-- Look a description up in the registry, and register it if it is new. -/
def intern (d : Descriptor) : Inference TypeId :=
  ExceptT.mk fun r ↦
    match r.intern d with
    | .ok (id, r) => (.ok id, r)
    | .error clash => (.error (.idCollision clash.id), r)

end Inference

/-! ## Looking at the members -/

namespace Registry

/-- The element type of a list type. -/
def item? (r : Registry) (id : TypeId) : Option TypeId :=
  match r.describe? id with
  | some (.array item) => some item
  | _ => none

/-- The fields of an object type. -/
def fields? (r : Registry) (id : TypeId) : Option Fields :=
  match r.describe? id with
  | some (.object fields) => some fields
  | _ => none

/-- The types that a type is a union of: the members of a union, or just the type. -/
def alternatives (r : Registry) (id : TypeId) : List TypeId :=
  match r.describe? id with
  | some (.union members) => members.toList
  | _ => [id]

/-- A node that is not registered. -/
def isForeign (r : Registry) (id : NodeId) : Bool := !r.contains id

/-- The first member, if any, that is not registered. -/
def firstForeign? (r : Registry) (members : TypeSet) : Option NodeId :=
  (members.toList.filterMap TypeId.node?).find? r.isForeign

end Registry

/-- A rule of folding, with what it needs of the members. -/
inductive FoldRule where
  | bottom
  | identity (only : TypeId)
  | arrays (items : List TypeId)
  | objects (shapes : List Fields)
  | optionalArrays (items : List TypeId)
  | optionalObjects (shapes : List Fields)
  | mixed
deriving DecidableEq

/-- The rule for a set of members. -/
def FoldRule.select (r : Registry) (members : TypeSet) : FoldRule :=
  let items := members.toList.filterMap r.item?
  let shapes := members.toList.filterMap r.fields?
  let hasUndefined : Bool := TypeId.scalar .undefined ∈ members
  match members.toList with
  | [] => .bottom
  | [only] => .identity only
  | _ =>
    if items.length = members.size then .arrays items
    else if shapes.length = members.size then .objects shapes
    else if hasUndefined ∧ items.length + 1 = members.size then .optionalArrays items
    else if hasUndefined ∧ shapes.length + 1 = members.size then .optionalObjects shapes
    else .mixed

namespace Inference

/-! ## The rules -/

/-- One list for several: its elements are whatever is an element of one of them. -/
def mergeArrays (fold : TypeSet → Inference TypeId) (items : List TypeId) : Inference TypeId := do
  intern (.array (← fold (.ofList items)))

/-- The field under a key that some of several objects have.  It is required only if all of them
have it and none has it as optional. -/
def mergeField (fold : TypeSet → Inference TypeId) (shapes : List Fields) (key : String) :
    Inference (String × Field) := do
  let defining := shapes.filterMap fun fields ↦ fields.get? key
  let always := defining.length = shapes.length ∧ ∀ f ∈ defining, ¬ f.isOptional
  let type ← fold (.ofList (defining.map Field.type))
  return (key, ⟨if always then .required else .optional, type⟩)

/-- All keys of several objects. -/
def allKeys (shapes : List Fields) : KeySet := .ofList (shapes.flatMap Fields.keys)

/-- One object for several. -/
def mergeObjects (fold : TypeSet → Inference TypeId) (shapes : List Fields) : Inference TypeId := do
  let fields ← (allKeys shapes).toList.mapM (mergeField fold shapes)
  intern (.object (.ofList fields))

/-- The union of several types, which is flat; if one alternative is left, just that. -/
def mergeUnion (members : TypeSet) : Inference TypeId := do
  let r ← get
  let flat : TypeSet := .ofList (members.toList.flatMap r.alternatives)
  match flat.toList with
  | [only] => return only
  | _ => intern (.union flat)

/-- A type or `undefined`. -/
def orUndefined (id : TypeId) : Inference TypeId := mergeUnion (.ofList [id, .scalar .undefined])

/-- The fold of a set of types whose parts nest less than `height` deep. -/
def foldWithin : (height : Nat) → (members : TypeSet) → Inference TypeId
  | 0, _ => throw .endless
  | height + 1, members => do
    let r ← get
    match r.firstForeign? members with
    | some id => throw (.foreignMember id)
    | none =>
      match FoldRule.select r members with
      | .bottom => intern .bottom
      | .identity only => return only
      | .arrays items => mergeArrays (foldWithin height) items
      | .objects shapes => mergeObjects (foldWithin height) shapes
      | .optionalArrays items => orUndefined (← mergeArrays (foldWithin height) items)
      | .optionalObjects shapes => orUndefined (← mergeObjects (foldWithin height) shapes)
      | .mixed => mergeUnion members

/-- The type that summarises a set of types. -/
def fold (members : TypeSet) : Inference TypeId := do
  foldWithin ((← get).size + 1) members

end Inference

end Silhouette
