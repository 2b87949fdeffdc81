import Mathlib.Logic.Relation
import Silhouette.Proofs.Registry.WellFormed

/-!
# What a walk through a registry reaches

`Registry.Leads r a b` says that one gets from `a` to `b` by going from registered descriptions to
what they refer to, any number of times.  The walk with a stack, `Registry.reach`, finds exactly
these nodes (`Registry.mem_reach_iff`): what it answers came from the stack (`leads_of_mem_reach`),
and it has left nothing open (`mem_reach_of_points`).

So `Structure.prune` keeps the registered nodes to which the root leads (`get?_prune`).
-/

set_option autoImplicit false

namespace Silhouette

namespace Registry

/-- A registered node refers to another node. -/
def Points (r : Registry) (a b : NodeId) : Prop :=
  ∃ d, r.get? a = some d ∧ TypeId.node b ∈ d.children

/-- One node is reached from another in any number of steps. -/
def Leads (r : Registry) : NodeId → NodeId → Prop := Relation.ReflTransGen r.Points

theorem mem_nodes_iff {d : Descriptor} {b : NodeId} :
    b ∈ d.children.filterMap TypeId.node? ↔ TypeId.node b ∈ d.children := by
  rw [List.mem_filterMap]
  refine ⟨?_, ?_⟩
  · rintro ⟨c, hc, hb⟩
    cases c with
    | scalar k => cases hb
    | node n => cases hb; exact hc
  · exact fun h ↦ ⟨.node b, h, rfl⟩

theorem mem_unseenNodes {d : Descriptor} {seen : List NodeId} {b : NodeId} :
    b ∈ d.unseenNodes seen ↔ TypeId.node b ∈ d.children ∧ b ∉ seen := by
  rw [Descriptor.unseenNodes, List.mem_reverse, List.mem_filter, mem_nodes_iff, decide_eq_true_iff]

/-! ## The walk -/

section Steps

variable {r : Registry} {seen stack : List NodeId} {id : NodeId}

theorem reach_nil : r.reach seen [] = seen := by
  rw [reach]

theorem reach_of_mem (hs : id ∈ seen) : r.reach seen (id :: stack) = r.reach seen stack := by
  rw [reach, dif_pos hs]

theorem reach_of_none (hs : id ∉ seen) (hg : r.get? id = none) :
    r.reach seen (id :: stack) = r.reach (id :: seen) stack := by
  rw [reach, dif_neg hs]
  split
  · rfl
  · next d hd => rw [hg] at hd; cases hd

theorem reach_of_some {d : Descriptor} (hs : id ∉ seen) (hg : r.get? id = some d) :
    r.reach seen (id :: stack) =
      r.reach (id :: seen) (d.unseenNodes (id :: seen) ++ stack) := by
  rw [reach, dif_neg hs]
  split
  · next hn => rw [hg] at hn; cases hn
  · next d' hd => rw [hg] at hd; cases hd; rfl

end Steps

/-- What the walk answers was seen before or comes from the stack. -/
theorem leads_of_mem_reach {r : Registry} {seen stack : List NodeId} {x : NodeId}
    (hx : x ∈ r.reach seen stack) : x ∈ seen ∨ ∃ s ∈ stack, r.Leads s x := by
  induction seen, stack using Registry.reach.induct r with
  | case1 seen =>
    rw [reach_nil] at hx
    exact .inl hx
  | case2 seen id stack hs ih =>
    rw [reach_of_mem hs] at hx
    exact (ih hx).imp_right fun ⟨s, hm, hl⟩ ↦ ⟨s, List.mem_cons_of_mem _ hm, hl⟩
  | case3 seen id stack hs hg _ ih =>
    rw [reach_of_none hs hg] at hx
    rcases ih hx with h | ⟨s, hm, hl⟩
    · rcases List.mem_cons.1 h with rfl | h
      · exact .inr ⟨x, List.mem_cons_self, .refl⟩
      · exact .inl h
    · exact .inr ⟨s, List.mem_cons_of_mem _ hm, hl⟩
  | case4 seen id stack hs d hg _ ih =>
    rw [reach_of_some hs hg] at hx
    rcases ih hx with h | ⟨s, hm, hl⟩
    · rcases List.mem_cons.1 h with rfl | h
      · exact .inr ⟨x, List.mem_cons_self, .refl⟩
      · exact .inl h
    · rcases List.mem_append.1 hm with hm | hm
      · exact .inr ⟨id, List.mem_cons_self, .head ⟨d, hg, (mem_unseenNodes.1 hm).1⟩ hl⟩
      · exact .inr ⟨s, List.mem_cons_of_mem _ hm, hl⟩

/-- The walk keeps what it has seen and takes in its whole stack. -/
theorem mem_reach_of_mem {r : Registry} {seen stack : List NodeId} {x : NodeId}
    (hx : x ∈ seen ∨ x ∈ stack) : x ∈ r.reach seen stack := by
  induction seen, stack using Registry.reach.induct r with
  | case1 seen =>
    rw [reach_nil]
    simpa using hx
  | case2 seen id stack hs ih =>
    rw [reach_of_mem hs]
    refine ih ?_
    rcases hx with hx | hx
    · exact .inl hx
    · rcases List.mem_cons.1 hx with rfl | hx
      · exact .inl hs
      · exact .inr hx
  | case3 seen id stack hs hg _ ih =>
    rw [reach_of_none hs hg]
    refine ih ?_
    rw [List.mem_cons] at hx ⊢
    exact or_assoc.2 (or_left_comm.1 hx)
  | case4 seen id stack hs d hg _ ih =>
    rw [reach_of_some hs hg]
    refine ih ?_
    rw [List.mem_cons] at hx ⊢
    exact or_assoc.2 ((or_left_comm.1 hx).imp_right (Or.imp_right (List.mem_append_right _)))

/-- **The walk leaves nothing open**: what a node refers to is reached with it, unless the node was
seen before the walk began. -/
theorem mem_reach_of_points {r : Registry} {seen stack : List NodeId} {a b : NodeId}
    (ha : a ∈ r.reach seen stack) (hs : a ∉ seen) (hab : r.Points a b) :
    b ∈ r.reach seen stack := by
  induction seen, stack using Registry.reach.induct r with
  | case1 seen =>
    rw [reach_nil] at ha
    exact absurd ha hs
  | case2 seen id stack hid ih =>
    rw [reach_of_mem hid] at ha ⊢
    exact ih ha hs
  | case3 seen id stack hid hg _ ih =>
    rw [reach_of_none hid hg] at ha ⊢
    refine ih ha fun hmem ↦ ?_
    rcases List.mem_cons.1 hmem with rfl | hmem
    · obtain ⟨d, hd, -⟩ := hab
      rw [hg] at hd
      cases hd
    · exact hs hmem
  | case4 seen id stack hid d hg _ ih =>
    rw [reach_of_some hid hg] at ha ⊢
    by_cases ha' : a = id
    · -- the children of `a` are on the stack now, unless they have been seen
      subst ha'
      obtain ⟨d', hd', hb⟩ := hab
      rw [hg] at hd'
      cases hd'
      by_cases hbs : b ∈ a :: seen
      · exact mem_reach_of_mem (.inl hbs)
      · exact mem_reach_of_mem (.inr (List.mem_append_left _ (mem_unseenNodes.2 ⟨hb, hbs⟩)))
    · exact ih ha fun hmem ↦ (List.mem_cons.1 hmem).elim ha' hs

theorem mem_reach_iff {r : Registry} {stack : List NodeId} {x : NodeId} :
    x ∈ r.reach [] stack ↔ ∃ s ∈ stack, r.Leads s x := by
  refine ⟨?_, ?_⟩
  · intro hx
    rcases leads_of_mem_reach hx with h | h
    · cases h
    · exact h
  · rintro ⟨s, hs, hl⟩
    induction hl with
    | refl => exact mem_reach_of_mem (.inr hs)
    | tail _ hbc ih => exact mem_reach_of_points ih List.not_mem_nil hbc

/-- Nothing is seen twice. -/
theorem nodup_reach (r : Registry) {seen stack : List NodeId} (h : seen.Nodup) :
    (r.reach seen stack).Nodup := by
  induction seen, stack using Registry.reach.induct r with
  | case1 seen =>
    rw [reach_nil]
    exact h
  | case2 seen id stack hs ih =>
    rw [reach_of_mem hs]
    exact ih h
  | case3 seen id stack hs hg _ ih =>
    rw [reach_of_none hs hg]
    exact ih (List.nodup_cons.2 ⟨hs, h⟩)
  | case4 seen id stack hs d hg _ ih =>
    rw [reach_of_some hs hg]
    exact ih (List.nodup_cons.2 ⟨hs, h⟩)

/-! ## Forgetting nodes -/

theorem get?_retain (r : Registry) (keep : NodeId → Bool) (id : NodeId) :
    (r.retain keep).get? id = if keep id then r.get? id else none := by
  rw [get?_eq_lookup, get?_eq_lookup, retain, Table.toList_filter]
  induction r.nodes.toList with
  | nil => simp
  | cons e l ih =>
    obtain ⟨i, d⟩ := e
    rw [List.filter_cons]
    by_cases hi : id = i
    · subst hi
      cases hk : keep id with
      | false => simpa [hk] using ih
      | true => simp
    · have hb : (id == i) = false := beq_false_of_ne hi
      cases hk : keep i with
      | false => simpa [List.lookup_cons, hb] using ih
      | true => simpa [List.lookup_cons, hb] using ih

end Registry

/-! ## Pruning -/

namespace Structure

theorem mem_reachable_iff {s : Structure} {x : NodeId} :
    x ∈ s.reachable ↔ ∃ n, s.root = .node n ∧ s.types.Leads n x := by
  rw [reachable, Registry.mem_reach_iff]
  cases s.root with
  | scalar k => simp [TypeId.node?]
  | node n => simp [TypeId.node?]

@[simp] theorem root_prune (s : Structure) : s.prune.root = s.root := rfl

theorem get?_prune (s : Structure) (id : NodeId) :
    s.prune.types.get? id = if id ∈ s.reachable then s.types.get? id else none := by
  rw [prune, Registry.get?_retain]
  simp

theorem get?_of_get?_prune {s : Structure} {id : NodeId} {d : Descriptor}
    (h : s.prune.types.get? id = some d) : s.types.get? id = some d := by
  rw [get?_prune] at h
  split at h
  · exact h
  · cases h

/-- The entries of a pruned structure: those that the root leads to. -/
theorem mem_nodes_prune {s : Structure} {e : NodeId × Descriptor} :
    e ∈ s.prune.types.nodes.toList ↔ e ∈ s.types.nodes.toList ∧ e.1 ∈ s.reachable := by
  rw [prune, Registry.retain, Table.toList_filter, List.mem_filter, decide_eq_true_iff]

end Structure

end Silhouette
