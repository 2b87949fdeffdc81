import Silhouette.Marker

/-!
# What a sample is

`Kind.ofValue` looks at the outside of a value only: a scalar, a list or an object.  An object that
is a marker is the scalar it stands for.
-/

set_option autoImplicit false

namespace Silhouette

/-- The outside of a value. -/
inductive Kind where
  | scalar (kind : Scalar)
  | array
  | object
deriving DecidableEq, Repr

/-- What a value is, or what is wrong with the marker it is. -/
def Kind.ofValue : Json → Except Marker.Fault Kind
  | .null => .ok (.scalar .null)
  | .bool _ => .ok (.scalar .boolean)
  | .number _ => .ok (.scalar .number)
  | .string _ => .ok (.scalar .string)
  | .array _ => .ok .array
  | .object members =>
    match Marker.read? members with
    | some answer => answer.map .scalar
    | none => .ok .object

end Silhouette
