import Silhouette.Proofs.Inference.FlatUnions

/-!
# Unions are written in one way

A type that is one of several could be written as a union of unions, or as a union of one; neither
ever is.  That makes the set of its alternatives readable off the union itself, and it is what the
emitter and the reader of a structure go by (`unions_canonical`).
-/

set_option autoImplicit false

namespace Silhouette

namespace Inference

open Registry

/-- **Unions stay canonical.**  After any calls, failed ones included, every registered union has no
members or at least two, and no member of it is a registered union; and the same holds in the
structure of any root. -/
theorem unions_canonical {r : Registry} (h : Reached r) :
    r.FlatUnions ∧ ∀ root : TypeId, (Structure.prune ⟨root, r⟩).types.FlatUnions :=
  ⟨h.flatUnions, fun _ ↦ h.flatUnions.prune⟩

/-- A number or a string. -/
def numberOrString : Descriptor := .union (.ofList [.scalar .number, .scalar .string])

/-- A union put into a union, after a call that failed half-way: the registry has the union of three
that comes of it, and all its unions are flat. -/
theorem unions_canonical_spliced :
    ∃ r : Registry, Reached r ∧ r.size = 3 ∧
      (r.get? (Descriptor.digest (.union (.ofList
        [.scalar .number, .scalar .string, .scalar .boolean])))).isSome ∧
      r.FlatUnions ∧ ∀ root : TypeId, (Structure.prune ⟨root, r⟩).types.FlatUnions := by
  obtain ⟨r, hr⟩ : ∃ r, r = ((Call.fold (.ofList
    [.node numberOrString.digest, .scalar .boolean])).answer.run
      ((Call.value 256 (.array [.array [.number (.whole 1), .string "a"],
        .object [("$undefined", .null)]])).answer.run ∅).2).2 := ⟨_, rfl⟩
  have hreached : Reached r := hr ▸ .call (.call .start _) _
  exact ⟨r, hreached, hr ▸ by decide +kernel, hr ▸ by decide +kernel, unions_canonical hreached⟩

end Inference

end Silhouette
