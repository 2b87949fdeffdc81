import Silhouette.Proofs.Registry.Reach

/-!
# Pruning a well-formed registry

Pruning drops nodes from the middle of a registry, so what was said about places has to be said
again: `Registry.childrenFirst_iff` speaks of what stands before a node instead of its place, and in
this form it survives as long as nothing is dropped that a kept node refers to
(`WellFormed.retain`).

What the root reaches is such a set.  So a pruned structure is well-formed (`wellFormed_prune`), the
root reaches all of it (`leads_prune`), and since whatever is reached stands at a lower place
(`WellFormed.leads_le`), the root is its last node (`getLast?_ids_prune`).
-/

set_option autoImplicit false

namespace Silhouette

namespace Registry

variable {r : Registry} {keep : NodeId → Bool}

/-! ## Places -/

/-- Children first, without places: what a node refers to is among the nodes before it. -/
theorem childrenFirst_iff :
    r.ChildrenFirst ↔ ∀ l e l', r.nodes.toList = l ++ e :: l' →
      ∀ c, TypeId.node c ∈ e.2.children → c ∈ l.map Prod.fst := by
  refine ⟨fun h l e l' hl c hc ↦ ?_, fun h i id d hi c hc ↦ ?_⟩
  · have hi : r.nodes.toList[l.length]? = some (e.1, e.2) := by simp [hl]
    obtain ⟨j, hj, hjc⟩ := h l.length e.1 e.2 hi c hc
    rw [ids, hl, List.map_append, List.getElem?_append_left (by simpa using hj)] at hjc
    exact List.mem_of_getElem? hjc
  · obtain ⟨hlt, he⟩ := List.getElem?_eq_some_iff.1 hi
    have hl : r.nodes.toList =
        r.nodes.toList.take i ++ (id, d) :: r.nodes.toList.drop (i + 1) := by
      rw [← he, List.getElem_cons_drop, List.take_append_drop]
    have hmem := h _ _ _ hl c hc
    rw [List.map_take] at hmem
    obtain ⟨j, hj, hjc⟩ := List.mem_take_iff_getElem.1 hmem
    exact ⟨j, by omega, List.getElem?_eq_some_iff.2 ⟨by rw [ids]; omega, hjc⟩⟩

/-- What a node leads to stands no later than the node. -/
theorem WellFormed.leads_le (h : r.WellFormed) {a b : NodeId} (hab : r.Leads a b) {i : Nat}
    (hi : r.ids[i]? = some a) : ∃ j ≤ i, r.ids[j]? = some b := by
  induction hab with
  | refl => exact ⟨i, Nat.le_refl i, hi⟩
  | tail _ hbc ih =>
    obtain ⟨j, hji, hj⟩ := ih
    obtain ⟨d, hd, hc⟩ := hbc
    obtain ⟨k, hkj, hk⟩ := h.child_before hj hd hc
    exact ⟨k, by omega, hk⟩

/-- What a known node leads to is known. -/
theorem WellFormed.knows_of_leads (h : r.WellFormed) {a b : NodeId} (ha : r.Knows (.node a))
    (hab : r.Leads a b) : r.Knows (.node b) := by
  induction hab with
  | refl => exact ha
  | tail _ hbc =>
    obtain ⟨d, hd, hc⟩ := hbc
    exact h.knows_child hd hc

/-! ## Forgetting nodes -/

@[simp] theorem toList_retain (r : Registry) (keep : NodeId → Bool) :
    (r.retain keep).nodes.toList = r.nodes.toList.filter fun e ↦ keep e.1 :=
  Table.toList_filter _ _

theorem ids_retain (r : Registry) (keep : NodeId → Bool) :
    (r.retain keep).ids = r.ids.filter keep := by
  rw [ids, ids, toList_retain, List.filter_map]
  rfl

theorem Indexed.retain (h : r.Indexed) (keep : NodeId → Bool) : (r.retain keep).Indexed where
  digest_eq {id d} hmem := by
    rw [toList_retain, List.mem_filter] at hmem
    exact h.digest_eq hmem.1
  nodup := by
    rw [ids_retain]
    exact h.nodup.filter keep
  shapes_iff {id d} := by
    have hkeep : (id, d) ∈ r.nodes.toList → (((r.retain keep).get? id).isSome ↔ keep id) := by
      intro hmem
      rw [get?_retain, h.get?_eq_some_iff.2 hmem]
      cases keep id <;> simp
    rw [toList_retain, List.mem_filter]
    refine List.mem_filter.trans ?_
    rw [h.shapes_iff]
    exact and_congr_right hkeep

/-- Nothing is dropped that a kept node refers to. -/
theorem WellFormed.retain (h : r.WellFormed)
    (hclosed : ∀ id d c, r.get? id = some d → keep id → TypeId.node c ∈ d.children → keep c) :
    (r.retain keep).WellFormed where
  toIndexed := h.toIndexed.retain keep
  childrenFirst := by
    refine childrenFirst_iff.2 fun l e l' hl c hc ↦ ?_
    rw [toList_retain, List.filter_eq_append_iff] at hl
    obtain ⟨l₁, l₂, hnodes, rfl, hl₂⟩ := hl
    obtain ⟨l₃, l₄, rfl, hdropped, he, rfl⟩ := List.filter_eq_cons_iff.1 hl₂
    have hmem : e ∈ r.nodes.toList := by simp [hnodes]
    have hkeep : keep c :=
      hclosed e.1 e.2 c (h.toIndexed.get?_eq_some_iff.2 hmem) he hc
    rw [← List.append_assoc] at hnodes
    have hbefore := childrenFirst_iff.1 h.childrenFirst _ _ _ hnodes c hc
    -- what stands between the two parts was dropped, and `c` was kept
    obtain ⟨x, hx, rfl⟩ := List.mem_map.1 hbefore
    rcases List.mem_append.1 hx with hx | hx
    · exact List.mem_map_of_mem (List.mem_filter.2 ⟨hx, hkeep⟩)
    · exact absurd hkeep (hdropped x hx)

end Registry

/-! ## Pruning -/

namespace Structure

open Registry

variable {s : Structure}

theorem wellFormed_prune (h : s.types.WellFormed) : s.prune.types.WellFormed := by
  refine h.retain fun id d c hd hid hc ↦ ?_
  simp only [decide_eq_true_eq] at hid ⊢
  obtain ⟨n, hroot, hn⟩ := mem_reachable_iff.1 hid
  exact mem_reachable_iff.2 ⟨n, hroot, hn.tail ⟨d, hd, hc⟩⟩

theorem mem_ids_prune {x : NodeId} :
    x ∈ s.prune.types.ids ↔ x ∈ s.types.ids ∧ x ∈ s.reachable := by
  rw [prune, ids_retain, List.mem_filter, decide_eq_true_iff]

/-- The root reaches what it reached before. -/
theorem leads_prune {n x : NodeId} (hroot : s.root = .node n) (h : s.types.Leads n x) :
    s.prune.types.Leads n x := by
  induction h with
  | refl => exact .refl
  | @tail a b hna hab ih =>
    obtain ⟨d, hd, hb⟩ := hab
    refine ih.tail ⟨d, ?_, hb⟩
    rw [get?_prune, if_pos (mem_reachable_iff.2 ⟨n, hroot, hna⟩), hd]

/-- What is left leads nowhere else. -/
theorem leads_of_leads_prune {n x : NodeId} (h : s.prune.types.Leads n x) : s.types.Leads n x := by
  refine Relation.ReflTransGen.mono (p := s.types.Points) (fun a b hab ↦ ?_) n x h
  obtain ⟨d, hd, hb⟩ := hab
  exact ⟨d, get?_of_get?_prune hd, hb⟩

/-- The root reaches the same nodes after pruning as before. -/
theorem mem_reachable_prune {x : NodeId} : x ∈ s.prune.reachable ↔ x ∈ s.reachable := by
  rw [mem_reachable_iff, mem_reachable_iff]
  exact exists_congr fun n ↦
    and_congr_right fun hroot ↦ ⟨leads_of_leads_prune, leads_prune hroot⟩

/-- **The root comes last**, since whatever it reaches comes before it. -/
theorem getLast?_ids_prune (h : s.types.WellFormed) {n : NodeId} (hroot : s.root = .node n)
    (hn : n ∈ s.types.ids) : s.prune.types.ids.getLast? = some n := by
  obtain ⟨l, l', hl⟩ := List.append_of_mem hn
  have hplace : s.types.ids[l.length]? = some n := by simp [hl]
  have hafter : ∀ x ∈ l', ¬ x ∈ s.reachable := by
    intro x hx hreach
    obtain ⟨m, hm, hmx⟩ := mem_reachable_iff.1 hreach
    cases hroot.symm.trans hm
    obtain ⟨j, hj, hjx⟩ := h.leads_le hmx hplace
    -- `x` has two places then, one of them behind the root
    obtain ⟨k, hk, rfl⟩ := List.getElem_of_mem hx
    have hkx : s.types.ids[l.length + 1 + k]? = some l'[k] := by
      rw [hl, List.getElem?_append_right (by omega)]
      simp [show l.length + 1 + k - l.length = k + 1 by omega]
    have hlt : j < s.types.ids.length := (List.getElem?_eq_some_iff.1 hjx).1
    have := (List.getElem?_inj hlt h.nodup).1 (hjx.trans hkx.symm)
    omega
  have hself : n ∈ s.reachable := mem_reachable_iff.2 ⟨n, hroot, .refl⟩
  have hrest : l'.filter (fun id ↦ id ∈ s.reachable) = [] :=
    List.filter_eq_nil_iff.2 (by simpa using hafter)
  rw [prune, ids_retain, hl, List.filter_append, List.filter_cons_of_pos (by simpa using hself),
    hrest]
  exact List.getLast?_concat

end Structure

end Silhouette
