import Silhouette.Proofs.Registry.Unfolding

/-!
# Comparing two registries level by level

`Registry.Alike r r' a b` says that `a` in one registry and `b` in another stand for the same type,
without writing the type out: two objects have the same keys with the same marks and alike types
under each key, two lists have alike elements, and each member of one union is alike to some member
of the other.  Neither the ids nor the order of registration count.

This is the same as unfolding to one tree (`Alike.iff_exists_unfolds`), and types that are alike
have one id (`Alike.eq`): alike parts have one id, so the two descriptions are one and have one
digest.
-/

set_option autoImplicit false

namespace Silhouette

theorem Fields.ext_get? {fields fields' : Fields}
    (h : ∀ key, fields.get? key = fields'.get? key) : fields = fields' := by
  refine Ordered.ext_mem fun ⟨key, f⟩ ↦ ?_
  rw [← get?_eq_some_iff, ← get?_eq_some_iff, h]

namespace Registry

/-- Two ids stand for the same type, each in its own registry. -/
inductive Alike (r r' : Registry) : TypeId → TypeId → Prop
  | scalar (kind : Scalar) : Alike r r' (.scalar kind) (.scalar kind)
  | object {a b : NodeId} {fields fields' : Fields} (ha : r.get? a = some (.object fields))
      (hb : r'.get? b = some (.object fields'))
      (hmarks : ∀ key,
        (fields.get? key).map Field.presence = (fields'.get? key).map Field.presence)
      (h : ∀ key f f', fields.get? key = some f → fields'.get? key = some f' →
        Alike r r' f.type f'.type) : Alike r r' (.node a) (.node b)
  | array {a b : NodeId} {item item' : TypeId} (ha : r.get? a = some (.array item))
      (hb : r'.get? b = some (.array item')) (h : Alike r r' item item') :
      Alike r r' (.node a) (.node b)
  | union {a b : NodeId} {members members' : TypeSet} (there back : TypeId → TypeId)
      (ha : r.get? a = some (.union members)) (hb : r'.get? b = some (.union members'))
      (hthere : ∀ m ∈ members, there m ∈ members') (h : ∀ m ∈ members, Alike r r' m (there m))
      (hback : ∀ m ∈ members', back m ∈ members) (h' : ∀ m ∈ members', Alike r r' (back m) m) :
      Alike r r' (.node a) (.node b)

namespace Alike

variable {r r' : Registry} {a b : TypeId}

/-- A node that two registries describe in one way unfolds to one tree if its parts do. -/
theorem exists_unfolds_node {id : NodeId} {d : Descriptor} (hd : r.get? id = some d)
    (hd' : r'.get? id = some d)
    (h : ∀ c ∈ d.children, ∃ t, r.Unfolds c t ∧ r'.Unfolds c t) :
    ∃ t, r.Unfolds (.node id) t ∧ r'.Unfolds (.node id) t := by
  choose! tree htree using h
  exact ⟨d.toTree tree, .node tree hd fun c hc ↦ (htree c hc).1,
    .node tree hd' fun c hc ↦ (htree c hc).2⟩

/-- Objects with the same marks whose types are the same have the same fields. -/
theorem fields_eq {fields fields' : Fields}
    (hmarks : ∀ key, (fields.get? key).map Field.presence = (fields'.get? key).map Field.presence)
    (htypes : ∀ key f f', fields.get? key = some f → fields'.get? key = some f' →
      f.type = f'.type) : fields = fields' := by
  refine Fields.ext_get? fun key ↦ ?_
  have hmark := hmarks key
  cases hf : fields.get? key with
  | none =>
    rw [hf] at hmark
    exact (Option.map_eq_none_iff.1 hmark.symm).symm
  | some f =>
    cases hf' : fields'.get? key with
    | none =>
      rw [hf, hf'] at hmark
      cases hmark
    | some f' =>
      rw [hf, hf'] at hmark
      have htype := htypes key f f' hf hf'
      obtain ⟨p, c⟩ := f
      obtain ⟨p', c'⟩ := f'
      obtain rfl : p = p' := Option.some.inj hmark
      obtain rfl : c = c' := htype
      rfl

/-- Types that are alike have one id and unfold to one tree: that is so for their parts, so their
descriptions are one. -/
theorem eq_and_exists_unfolds (hr : r.Indexed) (hr' : r'.Indexed) (h : r.Alike r' a b) :
    a = b ∧ ∃ t, r.Unfolds a t ∧ r'.Unfolds b t := by
  have hdigest : ∀ {m n : NodeId} {d : Descriptor},
      r.get? m = some d → r'.get? n = some d → m = n :=
    fun hm hn ↦ (hr.digest_of_get? hm).trans (hr'.digest_of_get? hn).symm
  induction h with
  | scalar kind => exact ⟨rfl, _, .scalar kind, .scalar kind⟩
  | @object m n fields fields' ha hb hmarks _ ih =>
    obtain rfl := fields_eq hmarks fun key f f' hf hf' ↦ (ih key f f' hf hf').1
    obtain rfl := hdigest ha hb
    refine ⟨rfl, exists_unfolds_node ha hb fun c hc ↦ ?_⟩
    obtain ⟨⟨key, f⟩, hf, rfl⟩ := List.mem_map.1 hc
    have hget := Fields.get?_eq_some_iff.2 hf
    exact (ih key f f hget hget).2
  | @array m n item item' ha hb _ ih =>
    obtain ⟨rfl, hitem⟩ := ih
    obtain rfl := hdigest ha hb
    exact ⟨rfl, exists_unfolds_node ha hb fun c hc ↦ List.mem_singleton.1 hc ▸ hitem⟩
  | @union m n members members' there back ha hb hthere _ hback _ ih ih' =>
    obtain rfl : members = members' := Ordered.ext_mem fun c ↦
      ⟨fun hc ↦ (ih c hc).1 ▸ hthere c hc, fun hc ↦ (ih' c hc).1 ▸ hback c hc⟩
    obtain rfl := hdigest ha hb
    refine ⟨rfl, exists_unfolds_node ha hb fun c hc ↦ ?_⟩
    obtain ⟨heq, t, ht⟩ := ih c hc
    exact ⟨t, ht.1, heq ▸ ht.2⟩

/-- **Types that are alike have one id.** -/
theorem eq (hr : r.Indexed) (hr' : r'.Indexed) (h : r.Alike r' a b) : a = b :=
  (h.eq_and_exists_unfolds hr hr').1

/-- What is described in one way is alike if the parts are. -/
theorem of_parts {id : NodeId} {d : Descriptor} (hd : r.get? id = some d)
    (hd' : r'.get? id = some d) (h : ∀ c ∈ d.children, r.Alike r' c c) :
    r.Alike r' (.node id) (.node id) := by
  cases d with
  | object fields =>
    refine .object hd hd' (fun _ ↦ rfl) fun key f f' hf hf' ↦ ?_
    obtain rfl := Option.some.inj (hf.symm.trans hf')
    exact h f.type (Descriptor.mem_children_object (Fields.get?_eq_some_iff.1 hf))
  | array item => exact .array hd hd' (h item List.mem_cons_self)
  | union members => exact .union (fun m ↦ m) (fun m ↦ m) hd hd' (fun _ hm ↦ hm) h (fun _ hm ↦ hm) h

/-- **To be alike is to unfold to one tree.** -/
theorem iff_exists_unfolds (hr : r.Indexed) (hr' : r'.Indexed) :
    r.Alike r' a b ↔ ∃ t, r.Unfolds a t ∧ r'.Unfolds b t := by
  refine ⟨fun h ↦ (h.eq_and_exists_unfolds hr hr').2, ?_⟩
  rintro ⟨t, ha, hb⟩
  induction ha generalizing b with
  | scalar kind =>
    obtain rfl := (Unfolds.scalar kind : r.Unfolds _ _).id_unique hr hr' hb
    exact .scalar kind
  | @node m d tree hd hc ih =>
    obtain rfl := (Unfolds.node tree hd hc).id_unique hr hr' hb
    generalize ht : d.toTree tree = t at hb
    cases hb with
    | @node _ d' tree' hd' hc' =>
      have hinj : ∀ c ∈ d.children, ∀ c' ∈ d'.children, tree c = tree' c' → c = c' :=
        fun c hcm c' hcm' he ↦ (hc c hcm).id_unique hr hr' (he ▸ hc' c' hcm')
      obtain ⟨rfl, htrees⟩ := Descriptor.eq_of_toTree_eq ht hinj
      exact of_parts hd hd' fun c hcm ↦ ih c hcm (htrees c hcm ▸ hc' c hcm)

end Alike

end Registry

end Silhouette
