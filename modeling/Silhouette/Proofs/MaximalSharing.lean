import Silhouette.Proofs.Inference.Session
import Silhouette.Proofs.Registry.Alike

/-!
# One type, one id

The id of a type is the digest of its description, and a description knows its parts by their ids
only.  Still an id says what the whole type is: whatever calls two inferences have answered, or have
failed to answer, and in whatever order their registries were filled, two ids stand for one type
only if they are the same id (`maximal_sharing`).  Within one registry that means that no type is
held twice.

That two ids *stand for one type* can be said with the trees that they unfold to, or level by level
without trees (`Registry.Alike`); it comes to the same.
-/

set_option autoImplicit false

namespace Silhouette

namespace Inference

open Registry

/-- **A type has one id**, in one inference and in all of them.  Every registered id stands for just
one type; registered ids of two inferences stand for the same type, be it by their trees or level by
level, only if they are equal. -/
theorem maximal_sharing {r r' : Registry} (h : Reached r) (h' : Reached r') :
    (∀ a ∈ r.ids, ∃ t, ∀ u, r.Unfolds (.node a) u ↔ u = t) ∧
      ∀ a ∈ r.ids, ∀ b ∈ r'.ids,
        (∀ t, r.Unfolds (.node a) t → r'.Unfolds (.node b) t → a = b) ∧
          (r.Alike r' (.node a) (.node b) → a = b) := by
  have hr := h.wellFormed.toIndexed
  have hr' := h'.wellFormed.toIndexed
  refine ⟨fun a ha ↦ ?_, fun a _ b _ ↦ ⟨fun t ht ht' ↦ ?_, fun halike ↦ ?_⟩⟩
  · have hknows : r.Knows (.node a) := mem_ids_iff.1 ha
    obtain ⟨t, ht⟩ := h.wellFormed.exists_unfolds hknows
    exact ⟨t, fun u ↦ ⟨fun hu ↦ hu.unique ht, fun hu ↦ hu ▸ ht⟩⟩
  · exact TypeId.node.inj (ht.id_unique hr hr' ht')
  · exact TypeId.node.inj (halike.eq hr hr')

/-- Texts in a list are met first by one inference, and by another one after a call that has failed
and left numbers in a list behind.  They stand at the first place in one registry and at the second
in the other, and still have one id. -/
theorem maximal_sharing_otherOrder :
    ∃ (r r' : Registry) (a b : NodeId), Reached r ∧ Reached r' ∧ r.ids[0]? = some a ∧
      r'.ids[1]? = some b ∧ r.ids[0]? ≠ r'.ids[0]? ∧ r.Alike r' (.node a) (.node b) ∧ a = b := by
  obtain ⟨r, hr⟩ : ∃ r, r = ((Call.value 256 (.array [.string "s"])).answer.run ∅).2 := ⟨_, rfl⟩
  obtain ⟨r', hr'⟩ : ∃ r', r' = ((Call.samples 256 [.array [.string "s"]]).answer.run
    ((Call.samples 256 [.array [.number (.whole 1)],
      .object [("$undefined", .bool false)]]).answer.run ∅).2).2 := ⟨_, rfl⟩
  have hreached : Reached r := hr ▸ .call .start _
  have hreached' : Reached r' := hr' ▸ .call (.call .start _) _
  obtain ⟨a, ha, hget⟩ := Option.bind_eq_some_iff.1
    (hr ▸ by decide +kernel : r.ids[0]?.bind r.get? = some (.array (.scalar .string)))
  obtain ⟨b, hb, hget'⟩ := Option.bind_eq_some_iff.1
    (hr' ▸ by decide +kernel : r'.ids[1]?.bind r'.get? = some (.array (.scalar .string)))
  have hfirst : r.ids[0]? ≠ r'.ids[0]? := by
    rw [hr, hr']
    decide +kernel
  have halike : r.Alike r' (.node a) (.node b) := .array hget hget' (.scalar .string)
  obtain ⟨-, hsame⟩ := maximal_sharing hreached hreached'
  obtain ⟨-, heq⟩ := hsame a (List.mem_of_getElem? ha) b (List.mem_of_getElem? hb)
  exact ⟨r, r', a, b, hreached, hreached', ha, hb, hfirst, halike, heq halike⟩

end Inference

end Silhouette
