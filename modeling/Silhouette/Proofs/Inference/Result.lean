import Silhouette.Proofs.Inference.Observe

/-!
# The result of an inference

`inferValue`, `inferSamples` and `inferQuery` run an inference from the empty registry and prune
what it leaves behind.  What the run ensures is carried over to the structures here: the root of a
structure unfolds to the type of what was observed (`inferValue_ok`, `inferQuery_ok`), and an error
is due (`inferValue_error`).  A list of samples is the value that lists them (`inferSamples_eq`).
-/

set_option autoImplicit false

namespace Silhouette

open Registry

variable {limit : Nat} {s : Structure} {e : InferenceError}

namespace Inference

variable {x : Inference TypeId} {post : Registry → TypeId → Prop} {fail : InferenceError → Prop}

theorem structure?_ok (hx : x.Ensures ∅ post fail) (h : x.structure? = .ok s) :
    ∃ types : Registry,
      types.WellFormed ∧ post types s.root ∧ s = Structure.prune ⟨s.root, types⟩ := by
  rw [structure?] at h
  rcases hrun : x.run ∅ with ⟨e | root, types⟩
  · rw [hrun] at h
    cases h
  · rw [hrun] at h
    cases h
    obtain ⟨-, hw, hp⟩ := hx.of_ok hrun
    exact ⟨types, hw, hp, rfl⟩

theorem structure?_error (hx : x.Ensures ∅ post fail) (h : x.structure? = .error e) : fail e := by
  rw [structure?] at h
  rcases hrun : x.run ∅ with ⟨e' | root, types⟩
  · rw [hrun] at h
    cases h
    exact (hx.of_error hrun).2.2
  · rw [hrun] at h
    cases h

end Inference

/-! ## Samples -/

/-- **A structure is about the type of the sample**: it is what is left of a well-formed registry in
which the root unfolds to that type. -/
theorem inferValue_ok {v : Json} (h : inferValue limit v = .ok s) :
    ∃ t, TypeTree.ofJson? v = some t ∧ v.nesting ≤ limit ∧
      ∃ types : Registry, types.WellFormed ∧ types.Unfolds s.root t ∧
        s = Structure.prune ⟨s.root, types⟩ := by
  obtain ⟨types, hw, ⟨t, ht, hn, hu⟩, hs⟩ :=
    Inference.structure?_ok (Inference.observe_ensures wellFormed_empty v) h
  exact ⟨t, ht, hn, types, hw, hu, hs⟩

theorem inferValue_unfolds {v : Json} (h : inferValue limit v = .ok s) :
    ∃ t, TypeTree.ofJson? v = some t ∧ s.types.Unfolds s.root t := by
  obtain ⟨t, ht, -, types, -, hu, hs⟩ := inferValue_ok h
  refine ⟨t, ht, ?_⟩
  rw [hs]
  exact Unfolds.prune (s := ⟨s.root, types⟩) hu

theorem inferValue_error {v : Json} (h : inferValue limit v = .error e) :
    e.IsDue (TypeTree.ofJson? v) limit v.nesting :=
  Inference.structure?_error (Inference.observe_ensures wellFormed_empty v) h

/-- What has a type and does not lie too deep is accepted, unless there is a clash. -/
theorem exists_inferValue {v : Json} {t : TypeTree} (ht : TypeTree.ofJson? v = some t)
    (hn : v.nesting ≤ limit) (hclash : NoClash (inferValue limit v)) :
    ∃ s, inferValue limit v = .ok s := by
  cases hrun : inferValue limit v with
  | ok s => exact ⟨s, rfl⟩
  | error e =>
    rcases inferValue_error hrun with he | hnone | hdeep
    · cases e with
      | idCollision id => exact absurd hrun (hclash id)
      | _ => exact absurd he id
    · rw [ht] at hnone
      cases hnone
    · omega

theorem inferSamples_eq (limit : Nat) (vs : List Json) :
    inferSamples limit vs = inferValue limit (.array vs) := by
  rw [inferSamples, inferValue, Inference.observe_array]

/-- The structure of several samples is about a list of what they have in common. -/
theorem inferSamples_unfolds {vs : List Json} (h : inferSamples limit vs = .ok s) :
    ∃ item ts, s.types.describe? s.root = some (.array item) ∧ TypeTree.ofItems? vs = some ts ∧
      s.types.Unfolds item (TypeTree.fold (.ofList ts)) := by
  rw [inferSamples_eq] at h
  obtain ⟨t, ht, hu⟩ := inferValue_unfolds h
  obtain ⟨ts, hts, rfl⟩ := Option.map_eq_some_iff.1 ht
  obtain ⟨item, hitem, hui⟩ := hu.exists_item
  exact ⟨item, ts, hitem, hts, hui⟩

/-! ## Queries -/

/-- The structure of a query is about an object with a field for each result. -/
theorem inferQuery_unfolds {query : String} {results : List Json}
    (h : inferQuery limit query results = .ok s) :
    ∃ fs, TypeTree.ofEntries? (Inference.resultMembers query results) = some fs ∧
      s.types.Unfolds s.root (.ofFields (.ofList fs)) := by
  obtain ⟨types, -, ⟨fs, hfs, hu⟩, hs⟩ :=
    Inference.structure?_ok (Inference.observeQuery_ensures wellFormed_empty query results) h
  refine ⟨fs, hfs, ?_⟩
  rw [hs]
  exact Unfolds.prune (s := ⟨s.root, types⟩) hu

end Silhouette
