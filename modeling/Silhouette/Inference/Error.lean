import Silhouette.Graph.Id
import Silhouette.Marker
import Silhouette.Sample.Path

/-!
# What can go wrong while a type is inferred

Most errors are about the input: a malformed marker, a value that nests too deep, a query without a
proper name.  The others are **internal** (`InferenceError.isInternal`): they say that a registry
was used with ids that are not its own, or that two descriptions have one digest.
-/

set_option autoImplicit false

namespace Silhouette

/-- Why a type could not be inferred. -/
inductive InferenceError where
  /-- A marker does not fit. -/
  | classification (path : Path) (fault : Marker.Fault)
  /-- A type to be folded is not registered. -/
  | foreignMember (id : NodeId)
  /-- A type to be folded is a part of itself. -/
  | endless
  /-- A value lies deeper than is allowed. -/
  | depthExceeded (path : Path) (limit : Nat)
  /-- The digest of a new description is taken. -/
  | idCollision (id : NodeId)
  /-- A query has a name that it cannot have. -/
  | invalidQueryId (id : String)

namespace InferenceError

def message : InferenceError → String
  | classification path fault => "cannot classify value at `" ++ path.text ++ "`: " ++ fault.message
  | foreignMember id =>
    "internal merge invariant violated: member " ++ id.text ++ " is not in this run's registry"
  | endless => "internal merge invariant violated: a member is a part of itself"
  | depthExceeded path limit =>
    "value at `" ++ path.text ++ "` nests deeper than the limit of " ++ toString limit
  | idCollision id => "descriptor id " ++ id.text ++ " is already taken by a different shape"
  | invalidQueryId id =>
    "query id `" ++ id ++ "` must start with a capital letter and contain only [A-Za-z0-9_]"

/-- Whether an error tells of a defect and not of bad input. -/
def isInternal : InferenceError → Bool
  | foreignMember _ => true
  | endless => true
  | idCollision _ => true
  | _ => false

end InferenceError

end Silhouette
