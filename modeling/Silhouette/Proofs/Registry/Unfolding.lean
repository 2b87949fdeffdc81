import Mathlib.Tactic.Choose
import Silhouette.Proofs.Registry.Reach
import Silhouette.Proofs.TypeTree.Basic

/-!
# Unfolding a registry

`Registry.Unfolds r id t` says that `t` is the type tree one gets by following `id` through the
registry `r` down to the scalars.  It is the one bridge between ids and types:

* an id unfolds to one tree only (`Unfolds.unique`), and every known id of a well-formed registry
  unfolds to one (`WellFormed.exists_unfolds`);
* a tree has **one id**, whatever the registry (`Unfolds.id_unique`);
* unfolding looks at the nodes that the id leads to and at nothing else (`Unfolds.of_agree`), so it
  survives growth and pruning.

`Registry.tree` is the tree that an id unfolds to.
-/

set_option autoImplicit false

namespace Silhouette

/-! ## One level -/

namespace Fields

/-- An entry of an object with the type in the place of its id. -/
def entryTree (tree : TypeId → TypeTree) (e : String × Field) : String × Presence × TypeTree :=
  (e.1, e.2.presence, tree e.2.type)

theorem entryTree_fst (tree : TypeId → TypeTree) (e : String × Field) :
    (entryTree tree e).1 = e.1 := rfl

/-- The fields of an object with the types in the place of their ids. -/
def toTrees (tree : TypeId → TypeTree) (fields : Fields) : TreeFields :=
  fields.relabel (entryTree tree) (entryTree_fst tree)

theorem mem_toTrees {tree : TypeId → TypeTree} {fields : Fields}
    {x : String × Presence × TypeTree} :
    x ∈ fields.toTrees tree ↔ ∃ e ∈ fields, entryTree tree e = x :=
  Ordered.mem_relabel

theorem toTrees_set (tree : TypeId → TypeTree) (fields : Fields) (key : String) (f : Field) :
    (fields.set key f).toTrees tree =
      (fields.toTrees tree).insert (key, f.presence, tree f.type) :=
  Ordered.relabel_insert (entryTree_fst tree) fields (key, f)

theorem toTrees_congr {f g : TypeId → TypeTree} {fields : Fields}
    (h : ∀ e ∈ fields, f e.2.type = g e.2.type) : fields.toTrees f = fields.toTrees g :=
  Ordered.relabel_congr fun e he ↦ by rw [entryTree, entryTree, h e he]

theorem lookup_toTrees (tree : TypeId → TypeTree) (fields : Fields) (key : String) :
    (fields.toTrees tree).toList.lookup key =
      (fields.get? key).map fun f ↦ (f.presence, tree f.type) := by
  refine Option.ext fun x ↦ ?_
  obtain ⟨p, t⟩ := x
  rw [TreeFields.lookup_toList_iff, mem_toTrees, Option.map_eq_some_iff]
  simp only [get?_eq_some_iff]
  refine ⟨?_, ?_⟩
  · rintro ⟨⟨k, f⟩, hf, he⟩
    cases he
    exact ⟨f, hf, rfl⟩
  · rintro ⟨f, hf, he⟩
    cases he
    exact ⟨(key, f), hf, rfl⟩

/-- A field of an object is a field of its tree. -/
theorem lookup_toTrees_of_get? {tree : TypeId → TypeTree} {fields : Fields} {key : String}
    {f : Field} (h : fields.get? key = some f) :
    (fields.toTrees tree).toList.lookup key = some (f.presence, tree f.type) := by
  rw [lookup_toTrees, h]
  rfl

/-- A field of the tree is a field of the object. -/
theorem exists_get?_of_lookup {tree : TypeId → TypeTree} {fields : Fields} {key : String}
    {p : Presence} {t : TypeTree} (h : (fields.toTrees tree).toList.lookup key = some (p, t)) :
    ∃ f, fields.get? key = some f ∧ f.presence = p ∧ tree f.type = t := by
  rw [lookup_toTrees, Option.map_eq_some_iff] at h
  obtain ⟨f, hf, he⟩ := h
  exact ⟨f, hf, Prod.mk.inj he⟩

end Fields

namespace Descriptor

/-- A description with the parts in the place of their ids. -/
def toTree (tree : TypeId → TypeTree) : Descriptor → TypeTree
  | object fields => .ofFields (fields.toTrees tree)
  | array item => .array (tree item)
  | union members => .ofMembers (members.image tree)

theorem toTree_ne_scalar (tree : TypeId → TypeTree) (d : Descriptor) (k : Scalar) :
    d.toTree tree ≠ .scalar k := by
  cases d <;> simp [toTree, TypeTree.ofFields, TypeTree.ofMembers]

theorem mem_children_object {fields : Fields} {e : String × Field} (h : e ∈ fields) :
    e.2.type ∈ (object fields).children :=
  List.mem_map_of_mem (f := fun e : String × Field ↦ e.2.type) h

theorem toTree_congr {f g : TypeId → TypeTree} {d : Descriptor} (h : ∀ c ∈ d.children, f c = g c) :
    d.toTree f = d.toTree g := by
  cases d with
  | object fields =>
    rw [toTree, toTree, Fields.toTrees_congr fun e he ↦ h _ (mem_children_object he)]
  | array item => rw [toTree, toTree, h item List.mem_cons_self]
  | union members => rw [toTree, toTree, Ordered.image_congr h]

/-- Descriptions that give one tree are one description, if parts with one tree are one part. -/
theorem eq_of_toTree_eq {f g : TypeId → TypeTree} {d d' : Descriptor}
    (h : d.toTree f = d'.toTree g)
    (hinj : ∀ c ∈ d.children, ∀ c' ∈ d'.children, f c = g c' → c = c') :
    d = d' ∧ ∀ c ∈ d.children, f c = g c := by
  cases d with
  | object fields =>
    cases d' with
    | object fields' =>
      rw [toTree, toTree, TypeTree.ofFields, TypeTree.ofFields, TypeTree.object.injEq] at h
      have hval : ∀ x, (∃ e ∈ fields, Fields.entryTree f e = x) ↔
          ∃ e ∈ fields', Fields.entryTree g e = x := fun x ↦ by
        rw [← Fields.mem_toTrees, ← Fields.mem_toTrees, Ordered.ext h]
      have hentry : ∀ e ∈ fields, ∀ e' ∈ fields',
          Fields.entryTree f e = Fields.entryTree g e' → e = e' := by
        rintro ⟨k, p, c⟩ he ⟨k', p', c'⟩ he' hx
        simp only [Fields.entryTree, Prod.mk.injEq] at hx
        obtain ⟨rfl, rfl, hc⟩ := hx
        rw [hinj c (mem_children_object he) c' (mem_children_object he') hc]
      obtain ⟨rfl, hfg⟩ := Ordered.eq_of_values_eq hval hentry
      refine ⟨rfl, fun c hc ↦ ?_⟩
      obtain ⟨e, he, rfl⟩ := List.mem_map.1 hc
      exact congrArg (fun x ↦ x.2.2) (hfg e he)
    | _ => cases h
  | array item =>
    cases d' with
    | array item' =>
      rw [toTree, toTree, TypeTree.array.injEq] at h
      obtain rfl := hinj item List.mem_cons_self item' List.mem_cons_self h
      exact ⟨rfl, fun c hc ↦ by rw [List.mem_singleton.1 hc, h]⟩
    | _ => cases h
  | union members =>
    cases d' with
    | union members' =>
      rw [toTree, toTree, TypeTree.ofMembers, TypeTree.ofMembers, TypeTree.union.injEq] at h
      have hval : ∀ x, (∃ m ∈ members, f m = x) ↔ ∃ m ∈ members', g m = x := fun x ↦ by
        rw [← Ordered.mem_image, ← Ordered.mem_image, Ordered.ext h]
      obtain ⟨rfl, hfg⟩ := Ordered.eq_of_values_eq hval hinj
      exact ⟨rfl, hfg⟩
    | _ => cases h

end Descriptor

/-! ## All levels -/

namespace Registry

/-- Following an id down to the scalars gives a tree. -/
inductive Unfolds (r : Registry) : TypeId → TypeTree → Prop
  | scalar (kind : Scalar) : Unfolds r (.scalar kind) (.scalar kind)
  | node {id : NodeId} {d : Descriptor} (tree : TypeId → TypeTree) (hd : r.get? id = some d)
      (hc : ∀ c ∈ d.children, Unfolds r c (tree c)) : Unfolds r (.node id) (d.toTree tree)

namespace Unfolds

variable {r r' : Registry}

theorem knows {id : TypeId} {t : TypeTree} (h : r.Unfolds id t) : r.Knows id := by
  cases h with
  | scalar k => trivial
  | node tree hd hc => exact ⟨_, hd⟩

/-- An id unfolds to one tree. -/
theorem unique {id : TypeId} {t u : TypeTree} (ht : r.Unfolds id t) (hu : r.Unfolds id u) :
    t = u := by
  induction ht generalizing u with
  | scalar k => cases hu; rfl
  | node tree hd hc ih =>
    cases hu with
    | node tree' hd' hc' =>
      obtain rfl := Option.some.inj (hd.symm.trans hd')
      exact Descriptor.toTree_congr fun c hc ↦ ih c hc (hc' c hc)

/-- **A tree has one id**, in all registries. -/
theorem id_unique (hr : r.Indexed) (hr' : r'.Indexed) {a b : TypeId} {t : TypeTree}
    (ha : r.Unfolds a t) (hb : r'.Unfolds b t) : a = b := by
  induction ha generalizing b with
  | scalar k =>
    generalize ht : TypeTree.scalar k = t at hb
    cases hb with
    | scalar j => cases ht; rfl
    | node tree hd hc => exact absurd ht.symm (Descriptor.toTree_ne_scalar _ _ _)
  | @node id d tree hd hc ih =>
    generalize ht : d.toTree tree = t at hb
    cases hb with
    | scalar j => exact absurd ht (Descriptor.toTree_ne_scalar _ _ _)
    | node tree' hd' hc' =>
      obtain ⟨rfl, -⟩ := Descriptor.eq_of_toTree_eq ht fun c hcm c' hcm' he ↦
        ih c hcm (he ▸ hc' c' hcm')
      rw [hr.digest_of_get? hd, hr'.digest_of_get? hd']

/-- Unfolding an id looks only at nodes that the id leads to. -/
theorem of_agree {id : TypeId} {t : TypeTree} (h : r.Unfolds id t)
    (hagree : ∀ m n d, id = .node m → r.Leads m n → r.get? n = some d → r'.get? n = some d) :
    r'.Unfolds id t := by
  induction h with
  | scalar k => exact .scalar k
  | @node id d tree hd hc ih =>
    refine .node tree (hagree id id d rfl .refl hd) fun c hcm ↦ ih c hcm ?_
    rintro m n d' rfl hl hd'
    exact hagree id n d' rfl (.head ⟨d, hd, hcm⟩ hl) hd'

theorem grows {id : TypeId} {t : TypeTree} (h : r.Unfolds id t) (hg : r.Grows r') :
    r'.Unfolds id t :=
  h.of_agree fun _ _ _ _ _ hd ↦ hg.get? hd

/-- What is pruned away is not missed. -/
theorem prune {s : Structure} {t : TypeTree} (h : s.types.Unfolds s.root t) :
    s.prune.types.Unfolds s.root t := by
  refine h.of_agree fun m n d hm hl hd ↦ ?_
  rw [Structure.get?_prune, if_pos (Structure.mem_reachable_iff.2 ⟨m, hm, hl⟩), hd]

end Unfolds

/-- Every id of a well-formed registry unfolds. -/
theorem WellFormed.exists_unfolds {r : Registry} (hr : r.WellFormed) {id : TypeId}
    (h : r.Knows id) : ∃ t, r.Unfolds id t := by
  have hnode : ∀ (i : Nat) (n : NodeId), r.ids[i]? = some n → ∃ t, r.Unfolds (.node n) t := by
    intro i
    induction i using Nat.strongRecOn with
    | _ i ih =>
      intro n hn
      obtain ⟨d, hd⟩ := mem_ids_iff.1 (List.mem_of_getElem? hn)
      have hc : ∀ c, ∃ t, c ∈ d.children → r.Unfolds c t := by
        intro c
        cases c with
        | scalar k => exact ⟨_, fun _ ↦ .scalar k⟩
        | node m =>
          by_cases hm : TypeId.node m ∈ d.children
          · obtain ⟨j, hj, hjm⟩ := hr.child_before hn hd hm
            obtain ⟨t, ht⟩ := ih j hj m hjm
            exact ⟨t, fun _ ↦ ht⟩
          · exact ⟨.bottom, fun h ↦ absurd h hm⟩
      choose tree htree using hc
      exact ⟨d.toTree tree, .node tree hd htree⟩
  cases id with
  | scalar k => exact ⟨_, .scalar k⟩
  | node n =>
    obtain ⟨d, hd⟩ := h
    obtain ⟨i, hi, -⟩ := hr.exists_index hd
    exact hnode i n hi

/-! ## The tree of an id -/

/-- The tree that an id unfolds to. -/
noncomputable def tree (r : Registry) (id : TypeId) : TypeTree := Classical.epsilon (r.Unfolds id)

theorem Unfolds.tree_eq {r : Registry} {id : TypeId} {t : TypeTree} (h : r.Unfolds id t) :
    r.tree id = t :=
  (Classical.epsilon_spec ⟨t, h⟩ : r.Unfolds id (r.tree id)).unique h

@[simp] theorem tree_scalar (r : Registry) (k : Scalar) : r.tree (.scalar k) = .scalar k :=
  (Unfolds.scalar k).tree_eq

namespace WellFormed

variable {r r' : Registry}

theorem unfolds_tree (hr : r.WellFormed) {id : TypeId} (h : r.Knows id) :
    r.Unfolds id (r.tree id) :=
  Classical.epsilon_spec (hr.exists_unfolds h)

theorem tree_node (hr : r.WellFormed) {id : NodeId} {d : Descriptor} (hd : r.get? id = some d) :
    r.tree (.node id) = d.toTree r.tree :=
  (Unfolds.node r.tree hd fun _ hc ↦ hr.unfolds_tree (hr.knows_child hd hc)).tree_eq

theorem tree_inj (hr : r.WellFormed) {a b : TypeId} (ha : r.Knows a) (hb : r.Knows b)
    (h : r.tree a = r.tree b) : a = b :=
  (hr.unfolds_tree ha).id_unique hr.toIndexed hr.toIndexed (h ▸ hr.unfolds_tree hb)

theorem tree_grows (hr : r.WellFormed) (hg : r.Grows r') {id : TypeId} (h : r.Knows id) :
    r'.tree id = r.tree id :=
  ((hr.unfolds_tree h).grows hg).tree_eq

end WellFormed

end Registry

end Silhouette
