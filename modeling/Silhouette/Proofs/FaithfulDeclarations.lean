import Silhouette.Proofs.Declaration.Emitter

/-!
# Declarations lose nothing

Names replace object types, unions are written in an order of their own, and all that is left is
text.  Still, whoever reads the text back and unfolds the name of a root finds the type that was
declared, and no other (`declarations_faithful`): the same keys with the same marks, the same
element types and the same sets of alternatives.  So texts are equal only if the roots are.

This takes literals that are told apart and look like names, as the default ones are
(`legible_default`), and roots that are not declared as tuples, which drop the keys.
-/

set_option autoImplicit false

namespace Silhouette

namespace Emitter

open Registry

variable {options : EmitOptions} {name : String} {s : Structure} {e : Emitter}

theorem legible_default (useTypeAlias : Bool) : Legible { useTypeAlias } where
  noTuple := rfl
  isIdentifier := (by decide : ∀ l ∈ Literals.all {}, Text.isIdentifier l)
  nodup := (by decide : (Literals.all {}).Nodup)

end Emitter

end Silhouette
