import Silhouette.Proofs.Registry.Traversal

/-!
# Pruning any graph

`Structure.prune_keeps_reachable` says all there is to say about pruning, and it asks nothing of the
graph: there can be cycles in it, parts that several nodes share, ids that are not registered, and
the root can be a scalar or unregistered itself.  The walk ends (`Traversal.exists_runs`) and finds
what the root leads to (`mem_reachable_iff`); what it does not find is dropped, and dropping it
takes nothing away from what the root leads to (`mem_reachable_prune`).  So there is nothing to drop
the second time.
-/

set_option autoImplicit false

namespace Silhouette

/-- To forget the same nodes once more changes nothing. -/
theorem Registry.retain_retain (r : Registry) (keep : NodeId → Bool) :
    (r.retain keep).retain keep = r.retain keep := by
  have hnodes : (r.nodes.filter keep).filter keep = r.nodes.filter keep := by
    rw [Table.filter, Table.toList_filter, List.filter_filter]
    simp only [Bool.and_self]
    rfl
  simp only [Registry.retain, hnodes, List.filter_filter, Bool.and_self]

namespace Structure

open Registry

theorem prune_prune (s : Structure) : s.prune.prune = s.prune := by
  have hkeep : (fun id ↦ decide (id ∈ s.prune.reachable)) = fun id ↦ decide (id ∈ s.reachable) :=
    funext fun _ ↦ decide_eq_decide.2 mem_reachable_prune
  have htypes : s.prune.prune.types =
      (s.types.retain fun id ↦ id ∈ s.reachable).retain fun id ↦ id ∈ s.prune.reachable := rfl
  rw [hkeep, retain_retain] at htypes
  exact congrArg (Structure.mk s.root) htypes

/-- **Pruning keeps what the root reaches, and nothing else.**  On every graph:

* the walk from the root ends, and the references in the graph bound the number of its turns;
* it has then seen just the nodes to which the root leads, each once; a node that is not registered
  is among them, but leads nowhere;
* what is kept is the entries under these nodes, as they are and in their order, and the root;
* the root still reaches the same nodes, and pruning once more changes nothing. -/
theorem prune_keeps_reachable (s : Structure) :
    (∃ turns ≤ references s.types.nodes.toList + 1,
      Traversal.Runs s.types turns ⟨[], s.root.node?.toList⟩ s.reachable) ∧
    s.reachable.Nodup ∧
    (∀ x, x ∈ s.reachable ↔ ∃ n, s.root = .node n ∧ s.types.Leads n x) ∧
    s.prune.types.nodes.toList = s.types.nodes.toList.filter (fun e ↦ e.1 ∈ s.reachable) ∧
    s.prune.root = s.root ∧
    (∀ x, x ∈ s.prune.reachable ↔ x ∈ s.reachable) ∧
    s.prune.prune = s.prune := by
  have hwalk : ∃ turns ≤ references s.types.nodes.toList + 1,
      Traversal.Runs s.types turns ⟨[], s.root.node?.toList⟩ s.reachable := by
    obtain ⟨turns, hle, hrun⟩ := Traversal.exists_runs s.types ⟨[], s.root.node?.toList⟩
    have hroot : s.root.node?.toList.length ≤ 1 := Option.length_toList_le
    rw [Traversal.pending, unseenEntries_nil] at hle
    exact ⟨turns, Nat.le_trans hle (Nat.add_le_add_left hroot _), hrun⟩
  exact ⟨hwalk, nodup_reach _ List.nodup_nil, fun _ ↦ mem_reachable_iff, toList_retain _ _,
    root_prune s, fun _ ↦ mem_reachable_prune, prune_prune s⟩

end Structure

end Silhouette
