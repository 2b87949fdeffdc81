import Silhouette.Proofs.Inference.Result
import Silhouette.Proofs.Json.Similar

/-!
# Order and repetition do not matter

Two runs over similar samples register descriptions in different orders and leave different things
behind.  What they have in common is the type tree (`Json.Similar.sameType`), and that fixes the
graph: a node that unfolds to one tree in two registries has one description in both
(`Unfolds.get?_eq`), and so on down (`Unfolds.leads`).  Once pruned, the two graphs have the same
entries (`Structure.sameGraph_prune`).

Whether a run succeeds is fixed by the sample as well, clashes of digests apart, since nothing else
can go wrong (`inferValue_error`).
-/

set_option autoImplicit false

namespace Silhouette

/-- The same root and the same entries, in any order. -/
structure Structure.SameGraph (s s' : Structure) : Prop where
  root_eq : s.root = s'.root
  entries_iff : ∀ e, e ∈ s.types.nodes.toList ↔ e ∈ s'.types.nodes.toList

/-! ## One tree, one graph -/

namespace Registry

variable {r r' : Registry}

/-- A node that unfolds to one tree in two registries has one description in both, and so its parts
unfold to one tree each. -/
theorem Unfolds.get?_eq (hr : r.Indexed) (hr' : r'.Indexed) {n : NodeId} {t : TypeTree}
    (h : r.Unfolds (.node n) t) (h' : r'.Unfolds (.node n) t) :
    r.get? n = r'.get? n ∧
      ∀ m, r.Points n m → ∃ u, r.Unfolds (.node m) u ∧ r'.Unfolds (.node m) u := by
  generalize ht : t = t' at h'
  cases h with
  | @node _ d tree hd hc =>
    cases h' with
    | @node _ d' tree' hd' hc' =>
      obtain ⟨rfl, htrees⟩ := Descriptor.eq_of_toTree_eq ht fun c hcm c' hcm' he ↦
        (hc c hcm).id_unique hr hr' (he ▸ hc' c' hcm')
      refine ⟨hd.trans hd'.symm, ?_⟩
      rintro m ⟨d', hdm, hm⟩
      cases hd.symm.trans hdm
      exact ⟨tree (.node m), hc _ hm, htrees _ hm ▸ hc' _ hm⟩

/-- What a node leads to in one registry it leads to in the other. -/
theorem Unfolds.leads (hr : r.Indexed) (hr' : r'.Indexed) {n m : NodeId} {t : TypeTree}
    (h : r.Unfolds (.node n) t) (h' : r'.Unfolds (.node n) t) (hl : r.Leads n m) :
    r'.Leads n m ∧ ∃ u, r.Unfolds (.node m) u ∧ r'.Unfolds (.node m) u := by
  induction hl with
  | refl => exact ⟨.refl, t, h, h'⟩
  | tail _ hp ih =>
    obtain ⟨hl', u, hu, hu'⟩ := ih
    obtain ⟨hget, hparts⟩ := hu.get?_eq hr hr' hu'
    obtain ⟨d, hd, hm⟩ := id hp
    exact ⟨.tail hl' ⟨d, hget ▸ hd, hm⟩, hparts _ hp⟩

end Registry

open Registry

namespace Structure

variable {root : TypeId} {types types' : Registry} {t : TypeTree}

theorem mem_nodes_prune_of_unfolds (hr : types.Indexed) (hr' : types'.Indexed)
    (h : types.Unfolds root t) (h' : types'.Unfolds root t) {e : NodeId × Descriptor}
    (he : e ∈ (prune ⟨root, types⟩).types.nodes.toList) :
    e ∈ (prune ⟨root, types'⟩).types.nodes.toList := by
  obtain ⟨id, d⟩ := e
  rw [mem_nodes_prune, mem_reachable_iff, ← hr.get?_eq_some_iff] at he
  rw [mem_nodes_prune, mem_reachable_iff, ← hr'.get?_eq_some_iff]
  obtain ⟨hd, n, hn, hl⟩ := he
  cases hn
  obtain ⟨hl', u, hu, hu'⟩ := h.leads hr hr' h' hl
  exact ⟨(hu.get?_eq hr hr' hu').1 ▸ hd, n, rfl, hl'⟩

/-- **One tree, one graph.** -/
theorem sameGraph_prune (hr : types.Indexed) (hr' : types'.Indexed) (h : types.Unfolds root t)
    (h' : types'.Unfolds root t) : SameGraph (prune ⟨root, types⟩) (prune ⟨root, types'⟩) where
  root_eq := rfl
  entries_iff _ := ⟨mem_nodes_prune_of_unfolds hr hr' h h', mem_nodes_prune_of_unfolds hr' hr h' h⟩

end Structure

/-! ## Two inferences -/

/-- Two inferences come to the same: their structures are the same graph, and one succeeds exactly
if the other does, unless one of them meets a clash of digests. -/
structure Agree (x y : Except InferenceError Structure) : Prop where
  sameGraph : ∀ s s', x = .ok s → y = .ok s' → s.SameGraph s'
  succeeds_iff : (∀ id, x ≠ .error (.idCollision id)) → (∀ id, y ≠ .error (.idCollision id)) →
    ((∃ s, x = .ok s) ↔ ∃ s, y = .ok s)

variable {limit : Nat} {v w : Json}

/-- What succeeds for one value fails for another of the same type by a clash only. -/
theorem exists_ok_of_sameType (h : v.SameType w) {s : Structure} (hs : inferValue limit v = .ok s)
    (hclash : ∀ id, inferValue limit w ≠ .error (.idCollision id)) :
    ∃ s, inferValue limit w = .ok s := by
  obtain ⟨t, -, hw, hn⟩ := h
  obtain ⟨-, -, hlimit, -⟩ := inferValue_ok hs
  exact exists_inferValue hw (hn ▸ hlimit) hclash

theorem Json.SameType.symm (h : v.SameType w) : w.SameType v := by
  obtain ⟨t, hv, hw, hn⟩ := h
  exact ⟨t, hw, hv, hn.symm⟩

theorem agree_of_sameType (limit : Nat) (h : v.SameType w) :
    Agree (inferValue limit v) (inferValue limit w) where
  sameGraph s s' hs hs' := by
    obtain ⟨t, hv, hw, -⟩ := h
    obtain ⟨t₁, ht₁, -, types, hr, hu, he⟩ := inferValue_ok hs
    obtain ⟨t₂, ht₂, -, types', hr', hu', he'⟩ := inferValue_ok hs'
    obtain rfl : t₁ = t := Option.some.inj (ht₁.symm.trans hv)
    obtain rfl : t₂ = t₁ := Option.some.inj (ht₂.symm.trans hw)
    have hroot : s.root = s'.root := hu.id_unique hr.toIndexed hr'.toIndexed hu'
    rw [he, he', ← hroot]
    rw [← hroot] at hu'
    exact Structure.sameGraph_prune hr.toIndexed hr'.toIndexed hu hu'
  succeeds_iff hv hw :=
    ⟨fun ⟨_, hs⟩ ↦ exists_ok_of_sameType h hs hw, fun ⟨_, hs⟩ ↦ exists_ok_of_sameType h.symm hs hv⟩

/-- **Neither the order of samples, nor how often they come, nor the order of keys matters**, at any
depth and for any limit. -/
theorem inference_order_independent (limit : Nat) :
    (∀ v w : Json, v.Distinct → w.Distinct → v.Similar w →
      Agree (inferValue limit v) (inferValue limit w)) ∧
    ∀ vs ws : List Json, (∀ v ∈ vs, v.Distinct) → (∀ w ∈ ws, w.Distinct) →
      (∀ v ∈ vs, ∃ w ∈ ws, v.Similar w) → (∀ w ∈ ws, ∃ v ∈ vs, v.Similar w) →
        Agree (inferSamples limit vs) (inferSamples limit ws) := by
  have hvalue : ∀ v w : Json, v.Distinct → w.Distinct → v.Similar w →
      Agree (inferValue limit v) (inferValue limit w) := fun v w hv hw h ↦
    agree_of_sameType limit (h.sameType hv hw)
  refine ⟨hvalue, fun vs ws hvs hws hleft hright ↦ ?_⟩
  rw [inferSamples_eq, inferSamples_eq]
  exact hvalue _ _ (.array hvs) (.array hws) (Json.similar_array_iff.2 ⟨hleft, hright⟩)

/-! An example: two rows; and the second row, the first with its keys in another order, its list
shuffled and other values in it, and the second row again. -/

def orderedRows : List Json :=
  [.object [("tags", .array [.string "a", .null]), ("note", .bool true)],
    .object [("$undefined", .bool true)]]

def shuffledRows : List Json :=
  [.object [("$undefined", .bool true)],
    .object [("note", .bool false), ("tags", .array [.null, .string "b", .null])],
    .object [("$undefined", .bool true)]]

theorem similar_shuffledRows :
    (∀ v ∈ orderedRows, ∃ w ∈ shuffledRows, v.Similar w) ∧
      ∀ w ∈ shuffledRows, ∃ v ∈ orderedRows, v.Similar w := by
  have hnull : Json.Similar .null .null := .scalar rfl rfl
  have htext : Json.Similar (.string "a") (.string "b") := .scalar rfl rfl
  have hnote : Json.Similar (.bool true) (.bool false) := .scalar rfl rfl
  have hundef : Json.Similar (.object [("$undefined", .bool true)])
      (.object [("$undefined", .bool true)]) := .scalar rfl rfl
  have htags : Json.Similar (.array [.string "a", .null])
      (.array [.null, .string "b", .null]) := by
    rw [Json.similar_array_iff]
    simp [hnull, htext]
  have hrow : Json.Similar (.object [("tags", .array [.string "a", .null]), ("note", .bool true)])
      (.object [("note", .bool false), ("tags", .array [.null, .string "b", .null])]) := by
    refine .object rfl rfl (fun key ↦ ?_) fun key v w hv hw ↦ ?_
    · by_cases h₁ : key = "tags" <;> by_cases h₂ : key = "note" <;> simp [h₁, h₂]
    · by_cases h₁ : key = "tags"
      · subst h₁
        cases hv
        cases hw
        exact htags
      · by_cases h₂ : key = "note"
        · subst h₂
          cases hv
          cases hw
          exact hnote
        · simp [h₁, h₂] at hv
  simp [orderedRows, shuffledRows, hundef, hrow]

theorem inference_order_independent_shuffledRows :
    (∃ s s', inferValue 256 (.array orderedRows) = .ok s ∧
      inferValue 256 (.array shuffledRows) = .ok s' ∧ s.SameGraph s') ∧
    ∃ s s', inferSamples 256 orderedRows = .ok s ∧ inferSamples 256 shuffledRows = .ok s' ∧
      s.SameGraph s' := by
  obtain ⟨hleft, hright⟩ := similar_shuffledRows
  have hordered : ∀ v ∈ orderedRows, v.Distinct := by simp [orderedRows]
  have hshuffled : ∀ v ∈ shuffledRows, v.Distinct := by simp [shuffledRows]
  obtain ⟨hvalue, hsamples⟩ := inference_order_independent 256
  obtain ⟨s₁, hs₁⟩ := exists_ok_of_isOk
    (by decide +kernel : (inferValue 256 (.array orderedRows)).isOk)
  obtain ⟨s₂, hs₂⟩ := exists_ok_of_isOk
    (by decide +kernel : (inferValue 256 (.array shuffledRows)).isOk)
  obtain ⟨s₃, hs₃⟩ := exists_ok_of_isOk (by decide +kernel : (inferSamples 256 orderedRows).isOk)
  obtain ⟨s₄, hs₄⟩ := exists_ok_of_isOk (by decide +kernel : (inferSamples 256 shuffledRows).isOk)
  refine ⟨⟨s₁, s₂, hs₁, hs₂, ?_⟩, s₃, s₄, hs₃, hs₄, ?_⟩
  · exact (hvalue _ _ (.array hordered) (.array hshuffled)
      (Json.similar_array_iff.2 ⟨hleft, hright⟩)).sameGraph s₁ s₂ hs₁ hs₂
  · exact (hsamples _ _ hordered hshuffled hleft hright).sameGraph s₃ s₄ hs₃ hs₄

end Silhouette
