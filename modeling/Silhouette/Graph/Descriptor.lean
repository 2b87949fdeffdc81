import Silhouette.Graph.Id
import Silhouette.Json.Basic

/-!
# Descriptions of types

A `Descriptor` describes a type one level deep and refers to its parts by their ids: an object by
its fields, a list by the type of its elements, a union by the set of its members.  The union
without members is the type that has no values; it describes the elements of an empty list.

The fields of an object are a finite map and the members of a union a finite set, so that there is
one description for each type seen this way.
-/

set_option autoImplicit false

namespace Silhouette

/-- Whether every object has a field. -/
inductive Presence where
  | required
  | optional
deriving DecidableEq, Repr

/-- A field of an object type. -/
structure Field where
  presence : Presence
  type : TypeId
deriving DecidableEq, Repr

def Field.isOptional (f : Field) : Bool := f.presence == .optional

/-- The fields of an object type by their keys. -/
abbrev Fields := Ordered fun (entry : String × Field) ↦ entry.1

/-- A finite set of keys. -/
abbrev KeySet := Ordered fun (key : String) ↦ key

namespace Fields

/-- The field under a key. -/
def get? (fields : Fields) (key : String) : Option Field := (fields.find? key).map Prod.snd

/-- Give a key a field. -/
def set (fields : Fields) (key : String) (field : Field) : Fields := fields.insert (key, field)

def keys (fields : Fields) : List String := fields.toList.map Prod.fst

end Fields

/-- A type, one level deep. -/
inductive Descriptor where
  | object (fields : Fields)
  | array (item : TypeId)
  | union (members : TypeSet)
deriving DecidableEq

namespace Descriptor

/-- The type without values. -/
def bottom : Descriptor := union ∅

/-- The ids that a description refers to. -/
def children : Descriptor → List TypeId
  | object fields => fields.toList.map fun entry ↦ entry.2.type
  | array item => [item]
  | union members => members.toList

end Descriptor

/-! ## Written form -/

def Presence.text : Presence → String
  | required => "required"
  | optional => "optional"

def TypeId.toJson (id : TypeId) : Json := .string id.text

def Field.toJson (f : Field) : Json :=
  .object [("presence", .string f.presence.text), ("type", f.type.toJson)]

/-- A description as a JSON object with one member, named for the form of the type. -/
def Descriptor.toJson : Descriptor → Json
  | object fields =>
    .object [("object", .object (fields.toList.map fun entry ↦ (entry.1, entry.2.toJson)))]
  | array item => .object [("array", item.toJson)]
  | union members => .object [("union", .array (members.toList.map TypeId.toJson))]

end Silhouette
