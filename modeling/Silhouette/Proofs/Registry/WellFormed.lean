import Mathlib.Data.List.Infix
import Silhouette.Graph.Structure
import Silhouette.Proofs.Ordered

/-!
# Well-formed registries

What every registry of an inference has in common, said without saying how it came about:

* `Registry.Indexed` — the two indexes hold the same pairs, and a description lies under its own
  digest.  Interning anything keeps this (`Indexed.enter`, `Indexed.intern_cases`).
* `Registry.ChildrenFirst` — what a description refers to was registered before it.  Interning
  keeps this as long as the description refers to nodes that are there (`Registry.Knows`).

Registries only grow (`Registry.Grows`), so what an id stands for never changes.
-/

set_option autoImplicit false

namespace Silhouette

namespace Registry

/-! ## The invariants -/

/-- The two indexes say the same, and every description lies under its digest. -/
structure Indexed (r : Registry) : Prop where
  /-- A node is known by the digest of its description. -/
  digest_eq : ∀ {id d}, (id, d) ∈ r.nodes.toList → id = d.digest
  /-- No node is registered twice. -/
  nodup : r.ids.Nodup
  /-- What one index holds the other holds too. -/
  shapes_iff : ∀ {id d}, (d, id) ∈ r.shapes ↔ (id, d) ∈ r.nodes.toList

/-- Whatever a description refers to was registered before it. -/
def ChildrenFirst (r : Registry) : Prop :=
  ∀ (i : Nat) (id : NodeId) (d : Descriptor), r.nodes.toList[i]? = some (id, d) →
    ∀ c, TypeId.node c ∈ d.children → ∃ j < i, r.ids[j]? = some c

/-- The registries that an inference works with. -/
structure WellFormed (r : Registry) : Prop extends Indexed r where
  childrenFirst : r.ChildrenFirst

/-- An id that means something: a scalar, or a node that is registered. -/
def Knows (r : Registry) : TypeId → Prop
  | .scalar _ => True
  | .node id => ∃ d, r.get? id = some d

/-- The later registry has everything of the earlier one, in the same order. -/
def Grows (r r' : Registry) : Prop := r.nodes.toList <+: r'.nodes.toList

/-! ## Looking up -/

theorem mem_ids_iff {r : Registry} {id : NodeId} : id ∈ r.ids ↔ ∃ d, r.get? id = some d := by
  refine ⟨fun h ↦ ?_, fun ⟨d, hd⟩ ↦ mem_ids_of_get? hd⟩
  obtain ⟨⟨i, d⟩, hd, rfl⟩ := List.mem_map.1 h
  simpa only [get?_eq_lookup] using exists_lookup_of_mem hd

theorem mem_nodes_of_get? {r : Registry} {id : NodeId} {d : Descriptor} (h : r.get? id = some d) :
    (id, d) ∈ r.nodes.toList := by
  rw [get?_eq_lookup] at h
  exact mem_of_lookup_eq_some h

namespace Indexed

variable {r : Registry}

theorem get?_eq_some_iff (h : r.Indexed) {id : NodeId} {d : Descriptor} :
    r.get? id = some d ↔ (id, d) ∈ r.nodes.toList := by
  rw [get?_eq_lookup, lookup_eq_some_iff_mem h.nodup]

theorem digest_of_get? (h : r.Indexed) {id : NodeId} {d : Descriptor} (hd : r.get? id = some d) :
    id = d.digest :=
  h.digest_eq (mem_nodes_of_get? hd)

/-- A description is found exactly if it is registered, and then under its digest. -/
theorem find?_eq_some_iff (h : r.Indexed) {id : NodeId} {d : Descriptor} :
    r.find? d = some id ↔ r.get? id = some d := by
  rw [h.get?_eq_some_iff, ← h.shapes_iff, find?, Option.map_eq_some_iff]
  refine ⟨?_, ?_⟩
  · rintro ⟨⟨d', i⟩, hf, rfl⟩
    have hp := List.find?_some hf
    simp only [decide_eq_true_eq] at hp
    obtain ⟨hi, rfl⟩ := hp
    exact List.mem_of_find?_eq_some hf
  · intro hd
    have hid : id = d.digest := h.digest_eq (h.shapes_iff.1 hd)
    have hsome : (r.shapes.find? fun entry ↦ entry.2 = d.digest ∧ entry.1 = d).isSome :=
      List.find?_isSome.2 ⟨(d, id), hd, by simp [hid]⟩
    obtain ⟨e, he⟩ := Option.isSome_iff_exists.1 hsome
    have hp := List.find?_some he
    simp only [decide_eq_true_eq] at hp
    exact ⟨e, he, hp.1.trans hid.symm⟩

theorem find?_eq_none (h : r.Indexed) {d : Descriptor} (hd : r.get? d.digest ≠ some d) :
    r.find? d = none := by
  cases hf : r.find? d with
  | none => rfl
  | some id =>
    have hg := h.find?_eq_some_iff.1 hf
    rw [h.digest_of_get? hg] at hg
    exact absurd hg hd

end Indexed

/-! ## Interning -/

/-- Register a description whose digest is free. -/
def enter (r : Registry) (d : Descriptor) : Registry :=
  ⟨r.nodes.add d.digest d, (d, d.digest) :: r.shapes⟩

@[simp] theorem toList_enter (r : Registry) (d : Descriptor) :
    (r.enter d).nodes.toList = r.nodes.toList ++ [(d.digest, d)] :=
  Table.toList_add _ _ _

@[simp] theorem ids_enter (r : Registry) (d : Descriptor) :
    (r.enter d).ids = r.ids ++ [d.digest] := by
  simp [ids]

namespace Indexed

variable {r : Registry}

/-- **Interning does one of three things**: it finds the description, it registers it last, or the
digest belongs to another description. -/
theorem intern_cases (h : r.Indexed) (d : Descriptor) :
    (r.get? d.digest = some d ∧ r.intern d = .ok (.node d.digest, r)) ∨
    (r.get? d.digest = none ∧ r.intern d = .ok (.node d.digest, r.enter d)) ∨
    ((∃ d', d' ≠ d ∧ r.get? d.digest = some d') ∧ r.intern d = .error ⟨d.digest⟩) := by
  cases hg : r.get? d.digest with
  | none =>
    have hf : r.find? d = none := h.find?_eq_none (by simp [hg])
    exact .inr (.inl ⟨rfl, by simp [intern, hf, contains, hg, enter]⟩)
  | some d' =>
    by_cases hd : d' = d
    · subst hd
      exact .inl ⟨rfl, intern_of_find? (h.find?_eq_some_iff.2 hg)⟩
    · have hf : r.find? d = none := h.find?_eq_none (by simp [hg, hd])
      exact .inr (.inr ⟨⟨d', hd, rfl⟩, by simp [intern, hf, contains, hg]⟩)

theorem enter (h : r.Indexed) {d : Descriptor} (hd : r.get? d.digest = none) :
    (r.enter d).Indexed where
  digest_eq {id d'} hmem := by
    rw [toList_enter, List.mem_append, List.mem_singleton, Prod.mk.injEq] at hmem
    rcases hmem with hmem | ⟨rfl, rfl⟩
    · exact h.digest_eq hmem
    · rfl
  nodup := by
    have hfree : d.digest ∉ r.ids := fun hmem ↦ by
      obtain ⟨d', hd'⟩ := mem_ids_iff.1 hmem
      rw [hd] at hd'
      cases hd'
    rw [ids_enter]
    exact List.nodup_append.2 ⟨h.nodup, List.nodup_singleton _, fun a ha b hb ↦ by
      rw [List.mem_singleton.1 hb]
      exact fun e ↦ hfree (e ▸ ha)⟩
  shapes_iff {id d'} := by
    rw [toList_enter, List.mem_append, List.mem_singleton, ← h.shapes_iff]
    show (d', id) ∈ (d, d.digest) :: r.shapes ↔ _
    rw [List.mem_cons, Prod.mk.injEq, Prod.mk.injEq, or_comm, and_comm]

end Indexed

/-! ## Growth -/

namespace Grows

variable {r r' r'' : Registry}

theorem refl (r : Registry) : r.Grows r := List.prefix_rfl

theorem trans (h : r.Grows r') (h' : r'.Grows r'') : r.Grows r'' := List.IsPrefix.trans h h'

theorem enter (r : Registry) (d : Descriptor) : r.Grows (r.enter d) := by
  rw [Grows, toList_enter]
  exact List.prefix_append _ _

theorem get? (h : r.Grows r') {id : NodeId} {d : Descriptor} (hd : r.get? id = some d) :
    r'.get? id = some d := by
  obtain ⟨l, hl⟩ := h
  rw [get?_eq_lookup] at hd ⊢
  rw [← hl, List.lookup_append, hd]
  rfl

theorem knows (h : r.Grows r') {id : TypeId} (hid : r.Knows id) : r'.Knows id := by
  cases id with
  | scalar k => trivial
  | node n =>
    obtain ⟨d, hd⟩ := hid
    exact ⟨d, h.get? hd⟩

theorem getElem?_ids (h : r.Grows r') {i : Nat} {id : NodeId} (hi : r.ids[i]? = some id) :
    r'.ids[i]? = some id := by
  obtain ⟨l, hl⟩ := h
  rw [ids, ← hl, List.map_append, List.getElem?_append_left]
  · exact hi
  · exact (List.getElem?_eq_some_iff.1 hi).1

end Grows

/-! ## Children first -/

theorem wellFormed_empty : (∅ : Registry).WellFormed where
  digest_eq h := absurd h (by simp [show (∅ : Registry).nodes.toList = [] from rfl])
  nodup := List.nodup_nil
  shapes_iff := by
    intro id d
    show (d, id) ∈ [] ↔ (id, d) ∈ []
    simp
  childrenFirst i id d h := by
    rw [show (∅ : Registry).nodes.toList = [] from rfl] at h
    cases h

namespace WellFormed

variable {r : Registry}

theorem enter (h : r.WellFormed) {d : Descriptor} (hd : r.get? d.digest = none)
    (hc : ∀ c ∈ d.children, r.Knows c) : (r.enter d).WellFormed where
  toIndexed := h.toIndexed.enter hd
  childrenFirst i id d' hi c hmem := by
    rw [toList_enter, List.getElem?_append] at hi
    split at hi
    · obtain ⟨j, hj, hcj⟩ := h.childrenFirst i id d' hi c hmem
      exact ⟨j, hj, (Grows.enter r d).getElem?_ids hcj⟩
    · next hlen =>
      -- only the new description is left, and its children are in the old registry
      have hd' : d' = d := by
        have := List.mem_of_getElem? hi
        rw [List.mem_singleton] at this
        exact congrArg Prod.snd this
      subst hd'
      obtain ⟨dc, hdc⟩ := hc _ hmem
      obtain ⟨j, hj, hcj⟩ := List.getElem_of_mem (mem_ids_of_get? hdc)
      have hjlen : j < r.nodes.toList.length := by simpa [ids] using hj
      exact ⟨j, by omega,
        (Grows.enter r d').getElem?_ids (List.getElem?_eq_some_iff.2 ⟨hj, hcj⟩)⟩

/-- The place of a registered node, with what was registered before it. -/
theorem exists_index (h : r.WellFormed) {id : NodeId} {d : Descriptor} (hd : r.get? id = some d) :
    ∃ i : Nat, r.ids[i]? = some id ∧
      ∀ c, TypeId.node c ∈ d.children → ∃ j < i, r.ids[j]? = some c := by
  obtain ⟨i, hi, he⟩ := List.getElem_of_mem (mem_nodes_of_get? hd)
  have hget : r.nodes.toList[i]? = some (id, d) := List.getElem?_eq_some_iff.2 ⟨hi, he⟩
  refine ⟨i, ?_, h.childrenFirst i id d hget⟩
  rw [ids, List.getElem?_map, hget]
  rfl

/-- What a node refers to stands before the node. -/
theorem child_before (h : r.WellFormed) {i : Nat} {id : NodeId} {d : Descriptor}
    (hi : r.ids[i]? = some id) (hd : r.get? id = some d) {c : NodeId}
    (hc : TypeId.node c ∈ d.children) : ∃ j < i, r.ids[j]? = some c := by
  obtain ⟨j, hj, hchild⟩ := h.exists_index hd
  have hlt : i < r.ids.length := (List.getElem?_eq_some_iff.1 hi).1
  have hij : i = j := (List.getElem?_inj hlt h.nodup).1 (hi.trans hj.symm)
  rw [hij]
  exact hchild c hc

theorem knows_child (h : r.WellFormed) {id : NodeId} {d : Descriptor} (hd : r.get? id = some d)
    {c : TypeId} (hc : c ∈ d.children) : r.Knows c := by
  cases c with
  | scalar k => trivial
  | node n =>
    obtain ⟨i, hi, -⟩ := h.exists_index hd
    obtain ⟨j, -, hj⟩ := h.child_before hi hd hc
    exact mem_ids_iff.1 (List.mem_of_getElem? hj)

end WellFormed

end Registry

end Silhouette
