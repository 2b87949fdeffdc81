import Silhouette.Proofs.Inference.FlatUnions
import Silhouette.Proofs.Inference.Result
import Silhouette.Proofs.Registry.Prune

/-!
# Structures that an inference gives

`Structure.Inferred` says which structures there are: those of a sample, of several samples and of
the results of a query, and those of a type that is known after any calls.  What all of them have in
common is `Structure.Proper`, and it is all that whoever reads a structure has to know.
-/

set_option autoImplicit false

namespace Silhouette

open Registry

namespace Structure

/-- A structure comes from an inference that succeeded. -/
inductive Inferred : Structure → Prop
  | value {limit : Nat} {v : Json} {s : Structure} (h : inferValue limit v = .ok s) : Inferred s
  | samples {limit : Nat} {vs : List Json} {s : Structure} (h : inferSamples limit vs = .ok s) :
      Inferred s
  | query {limit : Nat} {query : String} {results : List Json} {s : Structure}
      (h : inferQuery limit query results = .ok s) : Inferred s
  | session {r : Registry} {root : TypeId} (hr : Inference.Reached r) (hroot : r.Knows root) :
      Inferred (Structure.prune ⟨root, r⟩)

/-- A structure is well-formed, its unions are flat, and it is just what its root reaches. -/
structure Proper (s : Structure) : Prop where
  wellFormed : s.types.WellFormed
  flatUnions : s.types.FlatUnions
  knows_root : s.types.Knows s.root
  mem_reachable : ∀ (id : NodeId) (d : Descriptor), s.types.get? id = some d → id ∈ s.reachable

/-- Pruning makes a structure proper. -/
theorem proper_prune {s : Structure} (hr : s.types.WellFormed) (hflat : s.types.FlatUnions)
    (hroot : s.types.Knows s.root) : s.prune.Proper where
  wellFormed := wellFormed_prune hr
  flatUnions := hflat.prune
  knows_root := (hr.unfolds_tree hroot).prune.knows
  mem_reachable id d hd := by
    obtain ⟨-, hreach⟩ := mem_ids_prune.1 (mem_ids_of_get? hd)
    obtain ⟨n, hn, hl⟩ := mem_reachable_iff.1 hreach
    exact mem_reachable_iff.2 ⟨n, hn, leads_prune hn hl⟩

end Structure

theorem Inference.structure?_proper {x : Inference TypeId} {s : Structure}
    {post : Registry → TypeId → Prop} {fail : InferenceError → Prop} (hx : x.Ensures ∅ post fail)
    (hpost : ∀ r id, post r id → r.Knows id) (hk : x.Keeps FlatUnions ∅)
    (h : x.structure? = .ok s) : s.Proper := by
  have hflat := hk flatUnions_empty
  rw [structure?] at h
  rcases hrun : x.run ∅ with ⟨e | root, types⟩
  · rw [hrun] at h
    cases h
  · rw [hrun] at h hflat
    cases h
    obtain ⟨-, hw, hp⟩ := hx.of_ok hrun
    exact Structure.proper_prune hw hflat (hpost types root hp)

theorem inferValue_proper {limit : Nat} {v : Json} {s : Structure}
    (h : inferValue limit v = .ok s) : s.Proper :=
  Inference.structure?_proper (Inference.observe_ensures wellFormed_empty v)
    (fun _ _ ⟨_, _, _, hu⟩ ↦ hu.knows)
    (Inference.compositional_keeps_flatUnions.observe wellFormed_empty v) h

/-- **Every structure of an inference is proper.** -/
theorem Structure.Inferred.proper {s : Structure} (h : s.Inferred) : s.Proper := by
  cases h with
  | value h => exact inferValue_proper h
  | samples h =>
    rw [inferSamples_eq] at h
    exact inferValue_proper h
  | query h =>
    exact Inference.structure?_proper (Inference.observeQuery_ensures wellFormed_empty _ _)
      (fun _ _ ⟨_, _, hu⟩ ↦ hu.knows)
      (Inference.compositional_keeps_flatUnions.observeQuery wellFormed_empty _ _) h
  | session hr hroot => exact proper_prune hr.wellFormed hr.flatUnions hroot

end Silhouette
