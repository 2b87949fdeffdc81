import Silhouette.Proofs.Inference.FlatUnions
import Silhouette.Proofs.TypeTree.OfJson

/-!
# Canonical trees

A tree is **canonical** (`TypeTree.Canonical`) if there is nothing in it that a rule of folding
would write in another way: the fields of an object come in the order of their keys, the members of
a union in the order of their codes, no union has a single member, and none has a union as a member.

All trees that an inference has to do with are canonical: the types of values (`canonical_ofJson?`),
what folds make of them (`canonical_fold`), and what the ids of a registry with flat unions unfold
to (`Registry.Unfolds.canonical`).  On canonical trees `TypeTree.join` loses nothing: it has the
alternatives of all its members (`mem_alternatives_join`), and the join of a single tree is that
tree (`join_singleton`).
-/

set_option autoImplicit false

namespace Silhouette

namespace TypeTree

/-- A tree is a union. -/
def IsUnion (t : TypeTree) : Prop := ∃ members, t = .union members

/-- Nothing in the tree could be written more simply. -/
inductive Canonical : TypeTree → Prop
  | scalar (kind : Scalar) : Canonical (.scalar kind)
  | object (fields : TreeFields) (h : ∀ e ∈ fields, Canonical e.2.2) : Canonical (.ofFields fields)
  | array {item : TypeTree} (h : Canonical item) : Canonical (.array item)
  | union (members : TreeSet) (h : ∀ t ∈ members, Canonical t)
      (hone : ∀ t, members.toList ≠ [t]) (hflat : ∀ t ∈ members, ¬ t.IsUnion) :
      Canonical (.ofMembers members)

theorem canonical_bottom : bottom.Canonical :=
  .union ∅ (fun t ht ↦ absurd ht (Ordered.not_mem_empty t)) (fun t h ↦ by cases h)
    fun t ht ↦ absurd ht (Ordered.not_mem_empty t)

theorem canonical_undefined : undefined.Canonical := .scalar .undefined

/-! ## Parts -/

theorem alternatives_of_not_isUnion {t : TypeTree} (h : ¬ t.IsUnion) : t.alternatives = [t] := by
  cases t with
  | union members => exact absurd ⟨members, rfl⟩ h
  | _ => rfl

theorem not_isUnion_of_isArray {t : TypeTree} (h : t.isArray) : ¬ t.IsUnion := by
  rintro ⟨members, rfl⟩
  cases h

theorem not_isUnion_of_isObject {t : TypeTree} (h : t.isObject) : ¬ t.IsUnion := by
  rintro ⟨members, rfl⟩
  cases h

namespace Canonical

variable {t u : TypeTree}

theorem item (h : Canonical (.array t)) : t.Canonical := by
  generalize hu : TypeTree.array t = u at h
  cases h with
  | array h => cases hu; exact h
  | _ => cases hu

/-- An object lists its fields in the order of their keys. -/
theorem exists_fields {fs : List (String × Presence × TypeTree)} (h : Canonical (.object fs)) :
    ∃ fields : TreeFields, fs = fields.toList ∧ ∀ e ∈ fields, e.2.2.Canonical := by
  generalize hu : TypeTree.object fs = u at h
  cases h with
  | object fields h => cases hu; exact ⟨fields, rfl, h⟩
  | _ => cases hu

/-- A union lists its members in their order. -/
theorem exists_members {ts : List TypeTree} (h : Canonical (.union ts)) :
    ∃ members : TreeSet, ts = members.toList ∧ (∀ t ∈ members, t.Canonical) ∧
      (∀ t, members.toList ≠ [t]) ∧ ∀ t ∈ members, ¬ t.IsUnion := by
  generalize hu : TypeTree.union ts = u at h
  cases h with
  | union members h hone hflat => cases hu; exact ⟨members, rfl, h, hone, hflat⟩
  | _ => cases hu

theorem of_field? {key : String} {p : Presence} (h : t.Canonical)
    (hf : t.field? key = some (p, u)) : u.Canonical := by
  cases t with
  | object fs =>
    obtain ⟨fields, rfl, hfields⟩ := h.exists_fields
    exact hfields _ (TreeFields.lookup_toList_iff.1 hf)
  | _ => cases hf

/-- The alternatives of a tree are canonical, and no unions. -/
theorem of_mem_alternatives (h : t.Canonical) (hu : u ∈ t.alternatives) :
    u.Canonical ∧ ¬ u.IsUnion := by
  by_cases ht : t.IsUnion
  · obtain ⟨ts, rfl⟩ := ht
    obtain ⟨members, rfl, hmem, -, hflat⟩ := h.exists_members
    exact ⟨hmem u hu, hflat u hu⟩
  · rw [alternatives_of_not_isUnion ht, List.mem_singleton] at hu
    subst hu
    exact ⟨h, ht⟩

end Canonical

end TypeTree

/-! ## Sets of canonical trees -/

open TypeTree

namespace TreeSet

variable {members : TreeSet} (hM : ∀ t ∈ members, t.Canonical)
include hM

theorem canonical_items : ∀ t ∈ members.items, t.Canonical :=
  fun _ ht ↦ (hM _ (mem_items.1 ht)).item

theorem canonical_typesAt (key : String) : ∀ t ∈ members.typesAt key, t.Canonical := by
  intro t ht
  obtain ⟨u, hu, p, hf⟩ := mem_typesAt.1 ht
  exact (hM u hu).of_field? hf

theorem canonical_defined : ∀ t ∈ members.defined, t.Canonical :=
  fun t ht ↦ hM t (mem_defined.1 ht).1

/-- The alternatives of canonical trees are canonical, and no unions. -/
theorem canonical_alternatives : ∀ t ∈ members.alternatives, t.Canonical ∧ ¬ t.IsUnion := by
  intro t ht
  obtain ⟨u, hu, ht⟩ := mem_alternatives.1 ht
  exact (hM u hu).of_mem_alternatives ht

end TreeSet

namespace TypeTree

/-! ## Joining -/

section Join

variable {members : TreeSet} (hM : ∀ t ∈ members, t.Canonical)
include hM

theorem canonical_join : (join members).Canonical := by
  have halt := TreeSet.canonical_alternatives hM
  rw [join]
  split
  · next only honly =>
    have hmem : only ∈ members.alternatives := by simp [Ordered.mem_def, honly]
    exact (halt only hmem).1
  · next hone => exact .union _ (fun t ht ↦ (halt t ht).1) hone fun t ht ↦ (halt t ht).2

/-- Joining loses no alternative and adds none. -/
theorem mem_alternatives_join {t : TypeTree} :
    t ∈ (join members).alternatives ↔ t ∈ members.alternatives := by
  rw [join]
  split
  · next only honly =>
    have hmem := Ordered.toList_eq_singleton_iff.1 honly
    have hno : ¬ only.IsUnion := (TreeSet.canonical_alternatives hM only ((hmem only).2 rfl)).2
    rw [alternatives_of_not_isUnion hno, List.mem_singleton, hmem]
  · rfl

end Join

/-- The join depends on the alternatives only. -/
theorem join_congr {members members' : TreeSet} (h : members.alternatives = members'.alternatives) :
    join members = join members' := by
  rw [join, join, h]

/-- The join of one tree is that tree. -/
theorem join_singleton {members : TreeSet} {t : TypeTree} (h : members.toList = [t])
    (ht : t.Canonical) : join members = t := by
  have hmem := Ordered.toList_eq_singleton_iff.1 h
  have halt : ∀ u, u ∈ members.alternatives ↔ u ∈ t.alternatives := fun u ↦ by
    rw [TreeSet.mem_alternatives]
    simp [hmem]
  by_cases hu : t.IsUnion
  · obtain ⟨ts, rfl⟩ := hu
    obtain ⟨us, rfl, -, hone, -⟩ := ht.exists_members
    have hsame : members.alternatives = us := Ordered.ext_mem halt
    rw [join_of_ne (by rwa [hsame]), hsame]
    rfl
  · refine join_of_singleton (Ordered.toList_eq_singleton_iff.2 fun u ↦ ?_)
    rw [halt, alternatives_of_not_isUnion hu, List.mem_singleton]

/-! ## Folding -/

theorem mem_orUndefined_pair {t u : TypeTree} :
    u ∈ (.ofList [t, undefined] : TreeSet) ↔ u = t ∨ u = undefined := by
  rw [Ordered.mem_ofList, List.mem_cons, List.mem_singleton]

section OrUndefined

variable {t : TypeTree} (ht : t.Canonical)
include ht

theorem canonical_of_mem_pair : ∀ u ∈ (.ofList [t, undefined] : TreeSet), u.Canonical := by
  intro u hu
  rcases mem_orUndefined_pair.1 hu with rfl | rfl
  · exact ht
  · exact canonical_undefined

theorem canonical_orUndefined : (orUndefined t).Canonical :=
  canonical_join (canonical_of_mem_pair ht)

theorem mem_alternatives_orUndefined (hno : ¬ t.IsUnion) {u : TypeTree} :
    u ∈ (orUndefined t).alternatives ↔ u = t ∨ u = undefined := by
  have hself : ∀ v, v = t ∨ v = undefined → v.alternatives = [v] := by
    rintro v (rfl | rfl)
    · exact alternatives_of_not_isUnion hno
    · rfl
  rw [orUndefined, mem_alternatives_join (canonical_of_mem_pair ht), TreeSet.mem_alternatives]
  refine ⟨?_, fun h ↦ ⟨u, mem_orUndefined_pair.2 h, by simp [hself u h]⟩⟩
  rintro ⟨v, hv, hu⟩
  rw [mem_orUndefined_pair] at hv
  rw [hself v hv, List.mem_singleton] at hu
  exact hu ▸ hv

end OrUndefined

/-- A fold of objects lists its fields in the order of their keys. -/
theorem canonical_foldObjects {members : TreeSet}
    (h : ∀ key, (fold (members.typesAt key)).Canonical) : (foldObjects members).Canonical := by
  have hinc : (members.keys.toList.map fun key ↦
      (key, members.presenceAt key, fold (members.typesAt key))).Pairwise
        fun a b ↦ compare a.1 b.1 = .lt :=
    List.pairwise_map.2 members.keys.increasing
  refine .object ⟨_, hinc⟩ fun e he ↦ ?_
  obtain ⟨key, -, rfl⟩ := List.mem_map.1 he
  exact h key

/-- **The fold of canonical trees is canonical.** -/
theorem canonical_fold {members : TreeSet} (hM : ∀ t ∈ members, t.Canonical) :
    (fold members).Canonical := by
  revert hM
  refine fold_induction (P := fun members t ↦ (∀ u ∈ members, u.Canonical) → t.Canonical)
    (fun _ _ _ ↦ canonical_bottom) (fun members t h hM ↦ ?one) (fun members _ _ ih hM ↦ ?arrays)
    (fun members _ _ ih hM ↦ ?objects) (fun members t _ _ ih hM ↦ ?optional)
    (fun members _ hM ↦ canonical_join hM) members
  case one => exact hM t (by simp [Ordered.mem_def, h])
  case arrays => exact .array (ih (TreeSet.canonical_items hM))
  case objects => exact canonical_foldObjects fun key ↦ ih key (TreeSet.canonical_typesAt hM key)
  case optional => exact canonical_orUndefined (ih (TreeSet.canonical_defined hM))

/-! ## Values -/

mutual

/-- The type of a value is canonical. -/
theorem canonical_ofJson? : ∀ (v : Json) {t : TypeTree}, ofJson? v = some t → t.Canonical
  | .null, _, h => by cases h; exact .scalar .null
  | .bool _, _, h => by cases h; exact .scalar .boolean
  | .number _, _, h => by cases h; exact .scalar .number
  | .string _, _, h => by cases h; exact .scalar .string
  | .array items, _, h => by
    obtain ⟨ts, hts, rfl⟩ := Option.map_eq_some_iff.1 h
    exact .array (canonical_fold fun t ht ↦
      canonical_ofItems? items hts t (Ordered.mem_ofList.1 ht))
  | .object members, _, h => by
    rw [ofJson?] at h
    split at h
    · cases h; exact .scalar _
    · cases h
    · obtain ⟨fs, hfs, rfl⟩ := Option.map_eq_some_iff.1 h
      exact .object _ fun e he ↦ canonical_ofEntries? members hfs e (Ordered.mem_of_mem_ofList he)

theorem canonical_ofItems? : ∀ (vs : List Json) {ts : List TypeTree}, ofItems? vs = some ts →
    ∀ t ∈ ts, t.Canonical
  | [], _, h => by cases h; exact fun t ht ↦ absurd ht List.not_mem_nil
  | v :: vs, _, h => by
    obtain ⟨t, ht, h⟩ := Option.bind_eq_some_iff.1 h
    obtain ⟨ts, hts, rfl⟩ := Option.map_eq_some_iff.1 h
    exact List.forall_mem_cons.2 ⟨canonical_ofJson? v ht, canonical_ofItems? vs hts⟩

theorem canonical_ofEntries? : ∀ (members : List (String × Json))
    {fs : List (String × Presence × TypeTree)}, ofEntries? members = some fs →
      ∀ e ∈ fs, e.2.2.Canonical
  | [], _, h => by cases h; exact fun e he ↦ absurd he List.not_mem_nil
  | (key, v) :: members, _, h => by
    obtain ⟨t, ht, h⟩ := Option.bind_eq_some_iff.1 h
    obtain ⟨fs, hfs, rfl⟩ := Option.map_eq_some_iff.1 h
    exact List.forall_mem_cons.2 ⟨canonical_ofJson? v ht, canonical_ofEntries? members hfs⟩

end

end TypeTree

/-! ## Registries -/

namespace Registry

variable {r : Registry}

theorem Unfolds.isUnion {id : TypeId} {t : TypeTree} (h : r.Unfolds id t) (ht : t.IsUnion) :
    r.IsUnion id := by
  obtain ⟨ts, rfl⟩ := ht
  generalize hu : TypeTree.union ts = u at h
  cases h with
  | scalar k => cases hu
  | @node n d tree hd hc =>
    cases d with
    | union members => exact ⟨members, hd⟩
    | _ => cases hu

/-- Where unions are flat, every id unfolds to a canonical tree. -/
theorem Unfolds.canonical (hr : r.WellFormed) (hflat : r.FlatUnions) {id : TypeId} {t : TypeTree}
    (h : r.Unfolds id t) : t.Canonical := by
  induction h with
  | scalar k => exact .scalar k
  | @node n d tree hd hc ih =>
    cases d with
    | object fields =>
      refine .object _ fun x hx ↦ ?_
      obtain ⟨e, he, rfl⟩ := Fields.mem_toTrees.1 hx
      exact ih _ (Descriptor.mem_children_object he)
    | array item => exact .array (ih item List.mem_cons_self)
    | union members =>
      obtain ⟨hsize, hno⟩ := hflat n members hd
      refine .union _ (fun t ht ↦ ?_) (fun t ht ↦ ?_) fun t ht hu ↦ ?_
      · obtain ⟨m, hm, rfl⟩ := Ordered.mem_image.1 ht
        exact ih m hm
      · -- different members have different trees, so a single tree comes from a single member
        have hone : ∀ m ∈ members, tree m = t := fun m hm ↦
          (Ordered.toList_eq_singleton_iff.1 ht _).1 (Ordered.mem_image.2 ⟨m, hm, rfl⟩)
        have hinj : ∀ m ∈ members, ∀ m' ∈ members, m = m' := fun m hm m' hm' ↦
          (hc m hm).id_unique hr.toIndexed hr.toIndexed
            ((hone m hm).trans (hone m' hm').symm ▸ hc m' hm')
        obtain ⟨m, hm, -⟩ := Ordered.mem_image.1 ((Ordered.toList_eq_singleton_iff.1 ht t).2 rfl)
        have hsingle : members.toList = [m] :=
          Ordered.toList_eq_singleton_iff.2 fun m' ↦ ⟨fun hm' ↦ hinj m' hm' m hm, fun e ↦ e ▸ hm⟩
        rw [Ordered.size, hsingle] at hsize
        rcases hsize with h | h <;> simp at h
      · obtain ⟨m, hm, rfl⟩ := Ordered.mem_image.1 ht
        exact hno m hm ((hc m hm).isUnion hu)

end Registry

end Silhouette
