import Silhouette.Proofs.Registry.Prune

/-!
# Registries without cycles

A registry is `Acyclic` if no node is a part of itself.  It may refer to nodes that are not
registered and hold nodes that nothing refers to, and nothing is said about the order of
registration.  Where children come first there are no cycles (`WellFormed.acyclic`).

Recursions over such a registry need a measure, and that is `Registry.weight`: how many registered
nodes an id leads to, itself included.  It falls from a node to its parts (`Acyclic.weight_lt`) and
never exceeds the number of registered nodes (`weight_le_size`), not even the number of those that
are left after pruning (`Structure.weight_le_size_prune`).
-/

set_option autoImplicit false

namespace Silhouette

namespace Registry

/-- No node is a part of itself. -/
def Acyclic (r : Registry) : Prop := ∀ id, ¬ Relation.TransGen r.Points id id

/-- Where some number falls with every step to a part there are no cycles. -/
theorem acyclic_of_rank {r : Registry} (rank : NodeId → Nat)
    (h : ∀ a b, r.Points a b → rank b < rank a) : r.Acyclic := by
  have hfalls : ∀ a b, Relation.TransGen r.Points a b → rank b < rank a := fun a b hab ↦ by
    induction hab with
    | single hab => exact h _ _ hab
    | tail _ hbc ih => exact Nat.lt_trans (h _ _ hbc) ih
  exact fun id hid ↦ Nat.lt_irrefl _ (hfalls id id hid)

/-- Where children come first there are no cycles. -/
theorem WellFormed.acyclic {r : Registry} (h : r.WellFormed) : r.Acyclic := by
  refine acyclic_of_rank (fun id ↦ r.ids.idxOf id) fun a b ⟨d, hd, hb⟩ ↦ ?_
  obtain ⟨i, hi, hbefore⟩ := h.exists_index hd
  obtain ⟨j, hj, hjb⟩ := hbefore b hb
  obtain ⟨hi', rfl⟩ := List.getElem?_eq_some_iff.1 hi
  obtain ⟨hj', rfl⟩ := List.getElem?_eq_some_iff.1 hjb
  rw [h.nodup.idxOf_getElem, h.nodup.idxOf_getElem]
  exact hj

/-! ## Weights -/

/-- The registered nodes that a node leads to. -/
def below (r : Registry) (id : NodeId) : List NodeId := r.ids.filter fun x ↦ x ∈ r.reach [] [id]

/-- How many registered nodes an id leads to; a scalar leads to none. -/
def weight (r : Registry) (id : TypeId) : Nat := id.node?.elim 0 fun n ↦ (r.below n).length

variable {r : Registry}

theorem mem_below_iff {a b : NodeId} : b ∈ r.below a ↔ b ∈ r.ids ∧ r.Leads a b := by
  rw [below, List.mem_filter, decide_eq_true_iff, mem_reach_iff]
  refine and_congr_right fun _ ↦ ⟨?_, fun h ↦ ⟨a, List.mem_singleton_self a, h⟩⟩
  rintro ⟨s, hs, h⟩
  exact List.mem_singleton.1 hs ▸ h

@[simp] theorem weight_scalar (r : Registry) (kind : Scalar) : r.weight (.scalar kind) = 0 := rfl

@[simp] theorem weight_node (r : Registry) (id : NodeId) :
    r.weight (.node id) = (r.below id).length := rfl

theorem weight_le_size (r : Registry) (id : TypeId) : r.weight id ≤ r.size := by
  cases id with
  | scalar kind => exact Nat.zero_le _
  | node id =>
    have hle : (r.below id).length ≤ r.ids.length := List.length_filter_le _ _
    rwa [length_ids] at hle

/-- What is below a part is below the whole; the whole itself is not below its part. -/
theorem Acyclic.below_part (h : r.Acyclic) {a b : NodeId} (hab : r.Points a b) :
    r.below b = (r.below a).filter fun x ↦ x ∈ r.reach [] [b] ∧ x ≠ a := by
  rw [below, below, List.filter_filter]
  refine List.filter_congr fun x _ ↦ ?_
  rw [← Bool.decide_and, decide_eq_decide, mem_reach_iff, mem_reach_iff]
  simp only [List.mem_singleton, exists_eq_left]
  refine ⟨fun hbx ↦ ⟨⟨hbx, ?_⟩, .head hab hbx⟩, fun hx ↦ hx.1.1⟩
  rintro rfl
  exact h _ (Relation.TransGen.head' hab hbx)

/-- **A part weighs less than the whole.** -/
theorem Acyclic.weight_lt (h : r.Acyclic) {id : NodeId} {d : Descriptor} (hd : r.get? id = some d)
    {c : TypeId} (hc : c ∈ d.children) : r.weight c < r.weight (.node id) := by
  have hself : id ∈ r.below id := mem_below_iff.2 ⟨mem_ids_of_get? hd, .refl⟩
  cases c with
  | scalar kind => exact List.length_pos_of_mem hself
  | node c =>
    rw [weight_node, weight_node, h.below_part ⟨d, hd, hc⟩,
      List.length_filter_lt_length_iff_exists]
    exact ⟨id, hself, by simp⟩

end Registry

/-- Pruning leaves all that the root leads to, so no weight exceeds what is left. -/
theorem Structure.weight_le_size_prune {s : Structure} {id : TypeId}
    (h : ∀ n, id = .node n → n ∈ s.reachable) : s.types.weight id ≤ s.prune.types.size := by
  cases id with
  | scalar kind => exact Nat.zero_le _
  | node n =>
    obtain ⟨root, hroot, hn⟩ := mem_reachable_iff.1 (h n rfl)
    have hsub : (s.types.below n).Sublist s.prune.types.ids := by
      rw [Registry.below, prune, Registry.ids_retain]
      refine List.monotone_filter_right _ fun x hx ↦ ?_
      obtain ⟨m, hm, hmx⟩ := Registry.mem_reach_iff.1 (decide_eq_true_iff.1 hx)
      obtain rfl := List.mem_singleton.1 hm
      exact decide_eq_true (mem_reachable_iff.2 ⟨root, hroot, hn.trans hmx⟩)
    have hle := hsub.length_le
    rwa [Registry.length_ids] at hle

end Silhouette
