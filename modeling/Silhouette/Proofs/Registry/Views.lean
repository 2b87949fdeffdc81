import Silhouette.Inference.Fold
import Silhouette.Proofs.Registry.Unfolding

/-!
# Looking at a tree through its id

The fold asks an id what it is: a list over something (`Registry.item?`), an object with some fields
(`Registry.fields?`), or a union of some alternatives (`Registry.alternatives`).  For an id that is
known the answers are those that its tree gives (`WellFormed.item?_tree`, `field?_tree`,
`mem_keys_tree`, `mem_alternatives_tree`).
-/

set_option autoImplicit false

namespace Silhouette

namespace Registry

variable {r : Registry} {id : TypeId}

theorem describe?_eq_some_iff {d : Descriptor} :
    r.describe? id = some d ↔ ∃ n, id = .node n ∧ r.get? n = some d := by
  cases id with
  | scalar k => exact iff_of_false (by rintro ⟨⟩) (by rintro ⟨n, h, -⟩; cases h)
  | node n =>
    exact ⟨fun h ↦ ⟨n, rfl, h⟩, fun ⟨m, hm, h⟩ ↦ by cases hm; exact h⟩

/-- An id that means something is a scalar or stands for a description. -/
theorem WellFormed.known_cases (hr : r.WellFormed) (h : r.Knows id) :
    (∃ k, id = .scalar k) ∨
      ∃ d, r.describe? id = some d ∧ r.tree id = d.toTree r.tree := by
  cases id with
  | scalar k => exact .inl ⟨k, rfl⟩
  | node n =>
    obtain ⟨d, hd⟩ := h
    exact .inr ⟨d, hd, hr.tree_node hd⟩

theorem WellFormed.knows_part (hr : r.WellFormed) {d : Descriptor} (hd : r.describe? id = some d)
    {c : TypeId} (hc : c ∈ d.children) : r.Knows c := by
  obtain ⟨n, rfl, hn⟩ := describe?_eq_some_iff.1 hd
  exact hr.knows_child hn hc

theorem item?_eq_some_iff {item : TypeId} :
    r.item? id = some item ↔ r.describe? id = some (.array item) := by
  rw [item?]
  split
  · next h => rw [h, Option.some.injEq, Option.some.injEq, Descriptor.array.injEq]
  · next h => exact iff_of_false (by rintro ⟨⟩) (h item)

theorem fields?_eq_some_iff {fields : Fields} :
    r.fields? id = some fields ↔ r.describe? id = some (.object fields) := by
  rw [fields?]
  split
  · next h => rw [h, Option.some.injEq, Option.some.injEq, Descriptor.object.injEq]
  · next h => exact iff_of_false (by rintro ⟨⟩) (h fields)

namespace Grows

variable {r' : Registry} (hg : r.Grows r') (h : r.Knows id)
include hg h

/-- What is known is described as before when the registry has grown. -/
theorem describe? : r'.describe? id = r.describe? id := by
  cases id with
  | scalar k => rfl
  | node n =>
    obtain ⟨d, hd⟩ := h
    exact (hg.get? hd).trans hd.symm

theorem item? : r'.item? id = r.item? id := by
  rw [Registry.item?, Registry.item?, hg.describe? h]

theorem fields? : r'.fields? id = r.fields? id := by
  rw [Registry.fields?, Registry.fields?, hg.describe? h]

theorem alternatives : r'.alternatives id = r.alternatives id := by
  rw [Registry.alternatives, Registry.alternatives, hg.describe? h]

end Grows

/-- What unfolds to a list is registered as a list. -/
theorem Unfolds.exists_item {t : TypeTree} (h : r.Unfolds id (.array t)) :
    ∃ item, r.describe? id = some (.array item) ∧ r.Unfolds item t := by
  generalize hu : TypeTree.array t = u at h
  cases h with
  | scalar k => cases hu
  | @node n d tree hd hc =>
    cases d with
    | array item =>
      cases hu
      exact ⟨item, hd, hc item List.mem_cons_self⟩
    | _ => cases hu

/-- What unfolds to an object is registered as an object. -/
theorem Unfolds.exists_fields {fs : TreeFields} (h : r.Unfolds id (.ofFields fs)) :
    ∃ (fields : Fields) (tree : TypeId → TypeTree), r.describe? id = some (.object fields) ∧
      fields.toTrees tree = fs ∧ ∀ e ∈ fields, r.Unfolds e.2.type (tree e.2.type) := by
  generalize hu : TypeTree.ofFields fs = u at h
  cases h with
  | scalar k => cases hu
  | @node n d tree hd hc =>
    cases d with
    | object fields =>
      refine ⟨fields, tree, hd, Ordered.ext ?_, fun e he ↦ hc _ (Descriptor.mem_children_object he)⟩
      rw [Descriptor.toTree, TypeTree.ofFields, TypeTree.ofFields, TypeTree.object.injEq] at hu
      exact hu.symm
    | _ => cases hu

namespace WellFormed

theorem item?_tree (hr : r.WellFormed) (h : r.Knows id) :
    (r.tree id).item? = (r.item? id).map r.tree := by
  obtain ⟨k, rfl⟩ | ⟨d, hd, ht⟩ := hr.known_cases h
  · rw [tree_scalar]; rfl
  · rw [ht, item?, hd]
    cases d <;> rfl

theorem fields?_tree (hr : r.WellFormed) (h : r.Knows id) :
    (r.tree id).fields? = (r.fields? id).map fun fields ↦ (fields.toTrees r.tree).toList := by
  obtain ⟨k, rfl⟩ | ⟨d, hd, ht⟩ := hr.known_cases h
  · rw [tree_scalar]; rfl
  · rw [ht, fields?, hd]
    cases d <;> rfl

theorem isArray_tree (hr : r.WellFormed) (h : r.Knows id) :
    (r.tree id).isArray = (r.item? id).isSome := by
  rw [TypeTree.isArray, hr.item?_tree h, Option.isSome_map]

theorem isObject_tree (hr : r.WellFormed) (h : r.Knows id) :
    (r.tree id).isObject = (r.fields? id).isSome := by
  rw [TypeTree.isObject, hr.fields?_tree h, Option.isSome_map]

theorem field?_tree (hr : r.WellFormed) (h : r.Knows id) (key : String) :
    (r.tree id).field? key =
      ((r.fields? id).bind fun fields ↦ fields.get? key).map fun f ↦
        (f.presence, r.tree f.type) := by
  rw [TypeTree.field?, hr.fields?_tree h]
  cases r.fields? id with
  | none => rfl
  | some fields => exact Fields.lookup_toTrees r.tree fields key

theorem mem_keys_tree (hr : r.WellFormed) (h : r.Knows id) {key : String} :
    key ∈ (r.tree id).keys ↔ ∃ fields, r.fields? id = some fields ∧ key ∈ fields.keys := by
  rw [TypeTree.keys, hr.fields?_tree h]
  cases r.fields? id with
  | none => simp
  | some fields =>
    have hk : (fields.toTrees r.tree).toList.map Prod.fst = fields.keys := by
      rw [Fields.keys]
      exact List.map_map
    simp [hk]

theorem mem_alternatives_tree (hr : r.WellFormed) (h : r.Knows id) {t : TypeTree} :
    t ∈ (r.tree id).alternatives ↔ ∃ c ∈ r.alternatives id, r.tree c = t := by
  obtain ⟨k, rfl⟩ | ⟨d, hd, ht⟩ := hr.known_cases h
  · rw [tree_scalar]
    simp [TypeTree.alternatives, Registry.alternatives, describe?, TypeId.node?, eq_comm]
  · rw [Registry.alternatives, hd]
    cases d with
    | union members =>
      rw [ht]
      exact Ordered.mem_image
    | _ =>
      rw [ht]
      simp [Descriptor.toTree, TypeTree.alternatives, TypeTree.ofFields, ht, eq_comm]

theorem knows_alternative (hr : r.WellFormed) (h : r.Knows id) {c : TypeId}
    (hc : c ∈ r.alternatives id) : r.Knows c := by
  rw [Registry.alternatives] at hc
  split at hc
  · next members hd => exact hr.knows_part hd hc
  · rw [List.mem_singleton.1 hc]
    exact h

end WellFormed

end Registry

end Silhouette
