import Silhouette.Scalar

/-!
# How types without a declaration are written

Scalar kinds and the type without values are not declared; they are written as a **literal**, a text
that the caller may choose and that need not be a single name.  The default is the name of the kind,
and `never`.

`EmitOptions` adds the two choices about declarations themselves.
-/

set_option autoImplicit false

namespace Silhouette

/-- The literal of every scalar kind and of the type without values. -/
structure Literals where
  scalar : Scalar → String := Scalar.name
  bottom : String := "never"

namespace Literals

/-- Choose the literal of a kind. -/
def set (l : Literals) (kind : Scalar) (literal : String) : Literals :=
  { l with scalar := fun k ↦ if k = kind then literal else l.scalar k }

@[simp] theorem scalar_set_self (l : Literals) (kind : Scalar) (literal : String) :
    (l.set kind literal).scalar kind = literal := by simp [set]

theorem scalar_set_of_ne (l : Literals) {kind k : Scalar} (literal : String) (h : k ≠ kind) :
    (l.set kind literal).scalar k = l.scalar k := by simp [set, h]

/-- Every literal, in the order of the kinds and with that of the type without values at the
end. -/
def all (l : Literals) : List String := Scalar.all.map l.scalar ++ [l.bottom]

end Literals

/-- What can be chosen about declarations. -/
structure EmitOptions where
  /-- Declare objects as type aliases, not as interfaces. -/
  useTypeAlias : Bool := false
  /-- Declare an object at the root as the tuple of its fields. -/
  rootAsTuple : Bool := false
  literals : Literals := {}

end Silhouette
