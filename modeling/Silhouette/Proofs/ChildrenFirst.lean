import Silhouette.Proofs.Inference.Session
import Silhouette.Proofs.Registry.Prune

/-!
# Parts come before what they are parts of

The fold of an inference and the walks over its result go from a description to the types that it
refers to, and they end because every such step goes back in the order of registration.  That is an
invariant of the registry: whatever calls were made, with whatever arguments and whether they
succeeded or failed half-way, a description refers only to nodes that were registered before it
(`registry_children_first`).

A structure takes over a part of the registry, and in it the same is true.  It holds just what its
root reaches, and so the root comes last.
-/

set_option autoImplicit false

namespace Silhouette

namespace Inference

open Registry

/-- **The registry of an inference is closed and children come first**: after any calls no node is
registered twice, and every node that a description refers to stands at a lower place than the
description.  The structure of any registered root is closed and has children first as well; the
root reaches every node in it, and is the last one. -/
theorem registry_children_first {r : Registry} (h : Reached r) :
    (r.ids.Nodup ∧ r.ChildrenFirst) ∧
      ∀ (root : NodeId) (s : Structure), root ∈ r.ids → s = Structure.prune ⟨.node root, r⟩ →
        s.root = .node root ∧ s.types.ids.Nodup ∧ s.types.ChildrenFirst ∧
          (∀ n ∈ s.types.ids, s.types.Leads root n) ∧ s.types.ids.getLast? = some root := by
  have hr := h.wellFormed
  refine ⟨⟨hr.nodup, hr.childrenFirst⟩, ?_⟩
  rintro root s hroot rfl
  have hw : (Structure.prune ⟨.node root, r⟩).types.WellFormed := Structure.wellFormed_prune hr
  refine ⟨rfl, hw.nodup, hw.childrenFirst, fun n hn ↦ ?_,
    Structure.getLast?_ids_prune hr rfl hroot⟩
  obtain ⟨m, hm, hl⟩ := Structure.mem_reachable_iff.1 (Structure.mem_ids_prune.1 hn).2
  cases hm
  exact Structure.leads_prune rfl hl

/-- The rows of the example, observed after a call that failed and left five types behind: of nine
types the first one is the type without values, and the structure of the last one is closed. -/
theorem registry_children_first_after_failure :
    ∃ (r : Registry) (root : NodeId), Reached r ∧ r.size = 9 ∧ r.ids.getLast? = some root ∧
      (r.ids.Nodup ∧ r.ChildrenFirst) ∧
        (Structure.prune ⟨.node root, r⟩).types.ChildrenFirst ∧
          (Structure.prune ⟨.node root, r⟩).types.ids.getLast? = some root := by
  obtain ⟨r, hr⟩ : ∃ r, r = ((Call.samples 256 Json.unevenRows).answer.run
    ((Call.value 256 (.array (Json.unevenRows ++
      [.object [("$undefined", .bool false)]]))).answer.run ∅).2).2 := ⟨_, rfl⟩
  have hreached : Reached r := hr ▸ .call (.call .start _) _
  have hsize : r.size = 9 := hr ▸ by decide +kernel
  obtain ⟨root, hlast⟩ : ∃ root, r.ids.getLast? = some root :=
    Option.isSome_iff_exists.1 (hr ▸ by decide +kernel)
  obtain ⟨hfirst, hroots⟩ := registry_children_first hreached
  obtain ⟨-, -, hs, -, hroot⟩ := hroots root _ (List.mem_of_getLast? hlast) rfl
  exact ⟨r, root, hreached, hsize, hlast, hfirst, hs, hroot⟩

end Inference

end Silhouette
