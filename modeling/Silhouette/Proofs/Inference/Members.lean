import Mathlib.Data.List.Perm.Basic
import Silhouette.Proofs.Registry.Views
import Silhouette.Proofs.TypeTree.Fold

/-!
# A set of ids and the set of their trees

The fold of a set of ids looks at what its members are.  Different ids have different trees
(`WellFormed.tree_inj`), so it is as good to look at the set of their trees: the parts agree
(`items_image`, `typesAt_image`, `presenceAt_image`, `keys_image`, `alternatives_image`), and so
does the rule that is chosen (`FoldRule.select_cases`).
-/

set_option autoImplicit false

namespace Silhouette

/-! ## The parts of a set of ids -/

section Parts

variable {r : Registry} {members : TypeSet}

open Registry

theorem items_image (hr : r.WellFormed) (hM : ∀ m ∈ members, r.Knows m) :
    TreeSet.items (members.image r.tree) =
      Ordered.image r.tree (.ofList (members.toList.filterMap r.item?)) := by
  refine Ordered.ext_mem fun t ↦ ?_
  simp only [TreeSet.mem_items, Ordered.mem_image, Ordered.mem_ofList, List.mem_filterMap]
  refine ⟨?_, ?_⟩
  · rintro ⟨m, hm, ht⟩
    have hi := hr.item?_tree (hM m hm)
    rw [ht] at hi
    obtain ⟨c, hc, rfl⟩ := Option.map_eq_some_iff.1 hi.symm
    exact ⟨c, ⟨m, hm, hc⟩, rfl⟩
  · rintro ⟨c, ⟨m, hm, hc⟩, rfl⟩
    refine ⟨m, hm, ?_⟩
    obtain ⟨u, hu⟩ : ∃ u, r.tree m = .array u := by
      rw [← TypeTree.isArray_iff, TypeTree.isArray, hr.item?_tree (hM m hm), hc]
      rfl
    have hi := hr.item?_tree (hM m hm)
    rw [hu, hc] at hi
    rw [hu, Option.some.inj hi]

/-- The field under a key of some tree is the field of some id. -/
theorem exists_field?_iff (hr : r.WellFormed) (hM : ∀ m ∈ members, r.Knows m) {key : String}
    {p : Presence} {t : TypeTree} :
    (∃ u ∈ members.image r.tree, TypeTree.field? key u = some (p, t)) ↔
      ∃ fields ∈ members.toList.filterMap r.fields?, ∃ f, fields.get? key = some f ∧
        (f.presence, r.tree f.type) = (p, t) := by
  simp only [Ordered.mem_image, List.mem_filterMap]
  refine ⟨?_, ?_⟩
  · rintro ⟨u, ⟨m, hm, rfl⟩, hf⟩
    rw [hr.field?_tree (hM m hm), Option.map_eq_some_iff] at hf
    obtain ⟨f, hf, he⟩ := hf
    obtain ⟨fields, hfields, hget⟩ := Option.bind_eq_some_iff.1 hf
    exact ⟨fields, ⟨m, hm, hfields⟩, f, hget, he⟩
  · rintro ⟨fields, ⟨m, hm, hfields⟩, f, hget, he⟩
    refine ⟨_, ⟨m, hm, rfl⟩, ?_⟩
    rw [hr.field?_tree (hM m hm), hfields, Option.bind_some, hget, Option.map_some, he]

theorem typesAt_image (hr : r.WellFormed) (hM : ∀ m ∈ members, r.Knows m) (key : String) :
    TreeSet.typesAt (members.image r.tree) key =
      Ordered.image r.tree (.ofList (((members.toList.filterMap r.fields?).filterMap fun fields ↦
        fields.get? key).map Field.type)) := by
  refine Ordered.ext_mem fun t ↦ ?_
  rw [TreeSet.mem_typesAt, Ordered.mem_image]
  simp only [Ordered.mem_ofList, List.mem_map]
  refine ⟨?_, ?_⟩
  · rintro ⟨u, hu, p, hf⟩
    obtain ⟨fields, hfields, f, hget, he⟩ := (exists_field?_iff hr hM).1 ⟨u, hu, hf⟩
    exact ⟨f.type, ⟨f, List.mem_filterMap.2 ⟨fields, hfields, hget⟩, rfl⟩, congrArg Prod.snd he⟩
  · rintro ⟨c, ⟨f, hf, rfl⟩, rfl⟩
    obtain ⟨fields, hfields, hget⟩ := List.mem_filterMap.1 hf
    obtain ⟨u, hu, hf⟩ := (exists_field?_iff hr hM).2 ⟨fields, hfields, f, hget, rfl⟩
    exact ⟨u, hu, f.presence, hf⟩

/-- The test of `Inference.mergeField` asks every object for the field. -/
theorem forall_required_iff {shapes : List Fields} {key : String} :
    (∀ fields ∈ shapes, ∃ f, fields.get? key = some f ∧ f.presence = .required) ↔
      (shapes.filterMap fun fields ↦ fields.get? key).length = shapes.length ∧
        ∀ f ∈ shapes.filterMap fun fields ↦ fields.get? key, ¬ f.isOptional := by
  have hpres : ∀ f : Field, ¬ f.isOptional ↔ f.presence = .required := by
    rintro ⟨_ | _, c⟩ <;> simp [Field.isOptional]
  simp only [List.filterMap_length_eq_length, hpres, List.mem_filterMap]
  refine ⟨fun h ↦ ⟨fun fields hfields ↦ ?_, ?_⟩, ?_⟩
  · obtain ⟨f, hf, -⟩ := h fields hfields
    rw [hf]
    rfl
  · rintro f ⟨fields, hfields, hget⟩
    obtain ⟨f', hf', hp⟩ := h fields hfields
    cases hget.symm.trans hf'
    exact hp
  · rintro ⟨hall, hreq⟩ fields hfields
    obtain ⟨f, hf⟩ := Option.isSome_iff_exists.1 (hall fields hfields)
    exact ⟨f, hf, hreq f ⟨fields, hfields, hf⟩⟩

theorem presenceAt_image (hr : r.WellFormed) (hM : ∀ m ∈ members, r.Knows m) (key : String) :
    TreeSet.presenceAt (members.image r.tree) key = .required ↔
      ((members.toList.filterMap r.fields?).filterMap fun fields ↦ fields.get? key).length =
          (members.toList.filterMap r.fields?).length ∧
        ∀ f ∈ (members.toList.filterMap r.fields?).filterMap fun fields ↦ fields.get? key,
          ¬ f.isOptional := by
  have hobj : ∀ m ∈ members, (r.tree m).isObject ↔ ∃ fields, r.fields? m = some fields := by
    intro m hm
    rw [hr.isObject_tree (hM m hm), Option.isSome_iff_exists]
  rw [TreeSet.presenceAt_eq_required_iff, ← forall_required_iff]
  simp only [Ordered.mem_image, List.mem_filterMap]
  refine ⟨?_, ?_⟩
  · rintro h fields ⟨m, hm, hmf⟩
    obtain ⟨u, hu⟩ := h _ ⟨m, hm, rfl⟩ ((hobj m hm).2 ⟨fields, hmf⟩)
    rw [hr.field?_tree (hM m hm), hmf, Option.bind_some, Option.map_eq_some_iff] at hu
    obtain ⟨f, hf, he⟩ := hu
    exact ⟨f, hf, congrArg Prod.fst he⟩
  · rintro h t ⟨m, hm, rfl⟩ hto
    obtain ⟨fields, hmf⟩ := (hobj m hm).1 hto
    obtain ⟨f, hf, hp⟩ := h fields ⟨m, hm, hmf⟩
    refine ⟨r.tree f.type, ?_⟩
    rw [hr.field?_tree (hM m hm), hmf, Option.bind_some, hf, Option.map_some, hp]

theorem keys_image (hr : r.WellFormed) (hM : ∀ m ∈ members, r.Knows m) :
    TreeSet.keys (members.image r.tree) =
      Inference.allKeys (members.toList.filterMap r.fields?) := by
  refine Ordered.ext_mem fun key ↦ ?_
  rw [TreeSet.mem_keys, Inference.allKeys, Ordered.mem_ofList, List.mem_flatMap]
  simp only [Ordered.mem_image, List.mem_filterMap]
  refine ⟨?_, ?_⟩
  · rintro ⟨t, ⟨m, hm, rfl⟩, hk⟩
    obtain ⟨fields, hfields, hk⟩ := (hr.mem_keys_tree (hM m hm)).1 hk
    exact ⟨fields, ⟨m, hm, hfields⟩, hk⟩
  · rintro ⟨fields, ⟨m, hm, hfields⟩, hk⟩
    exact ⟨_, ⟨m, hm, rfl⟩, (hr.mem_keys_tree (hM m hm)).2 ⟨fields, hfields, hk⟩⟩

theorem alternatives_image (hr : r.WellFormed) (hM : ∀ m ∈ members, r.Knows m) :
    TreeSet.alternatives (members.image r.tree) =
      Ordered.image r.tree (.ofList (members.toList.flatMap r.alternatives)) := by
  refine Ordered.ext_mem fun t ↦ ?_
  rw [TreeSet.mem_alternatives, Ordered.mem_image]
  simp only [Ordered.mem_image, Ordered.mem_ofList, List.mem_flatMap]
  refine ⟨?_, ?_⟩
  · rintro ⟨u, ⟨m, hm, rfl⟩, ht⟩
    obtain ⟨c, hc, rfl⟩ := (hr.mem_alternatives_tree (hM m hm)).1 ht
    exact ⟨c, ⟨m, hm, hc⟩, rfl⟩
  · rintro ⟨c, ⟨m, hm, hc⟩, rfl⟩
    exact ⟨_, ⟨m, hm, rfl⟩, (hr.mem_alternatives_tree (hM m hm)).2 ⟨c, hc, rfl⟩⟩

end Parts

/-! ## The rule -/

section Rule

variable {r : Registry} {members : TypeSet}

open Registry

/-- One element apart, a list is mapped without loss. -/
theorem length_filterMap_add_one_iff {α β : Type} [DecidableEq α] {f : α → Option β} {l : List α}
    (hl : l.Nodup) {a : α} (ha : a ∈ l) (hf : f a = none) :
    (l.filterMap f).length + 1 = l.length ↔ ∀ b ∈ l, b ≠ a → (f b).isSome := by
  have hp := List.perm_cons_erase ha
  have hlen : (l.filterMap f).length = ((l.erase a).filterMap f).length := by
    rw [(hp.filterMap f).length_eq, List.filterMap_cons_none hf]
  rw [hlen, hp.length_eq, List.length_cons, Nat.add_right_cancel_iff,
    List.filterMap_length_eq_length]
  simp only [hl.mem_erase_iff]
  exact ⟨fun h b hb hba ↦ h b ⟨hba, hb⟩, fun h b hb ↦ h b hb.2 hb.1⟩

theorem tree_eq_undefined_iff (hr : r.WellFormed) {m : TypeId} (h : r.Knows m) :
    r.tree m = TypeTree.undefined ↔ m = .scalar .undefined := by
  refine ⟨?_, ?_⟩
  · intro ht
    exact hr.tree_inj h trivial (ht.trans (tree_scalar r .undefined).symm)
  · rintro rfl
    exact tree_scalar r .undefined

theorem undefined_mem_image (hr : r.WellFormed) (hM : ∀ m ∈ members, r.Knows m) :
    TypeTree.undefined ∈ members.image r.tree ↔ TypeId.scalar .undefined ∈ members := by
  rw [Ordered.mem_image]
  refine ⟨?_, ?_⟩
  · rintro ⟨m, hm, ht⟩
    exact (tree_eq_undefined_iff hr (hM m hm)).1 ht ▸ hm
  · intro h
    exact ⟨_, h, tree_scalar r .undefined⟩

theorem forall_image_iff {p : TypeTree → Prop} :
    (∀ t ∈ (members.image r.tree).toList, p t) ↔ ∀ m ∈ members.toList, p (r.tree m) := by
  refine ⟨?_, ?_⟩
  · exact fun h m hm ↦ h _ (Ordered.mem_image.2 ⟨m, hm, rfl⟩)
  · intro h t ht
    obtain ⟨m, hm, rfl⟩ := Ordered.mem_image.1 ht
    exact h m hm

/-- All trees but `undefined` are of one form exactly if the count of the ids says so. -/
theorem all_but_undefined_iff (hr : r.WellFormed) (hM : ∀ m ∈ members, r.Knows m)
    {β : Type} {f : TypeId → Option β} {p : TypeTree → Bool}
    (hp : ∀ m, r.Knows m → p (r.tree m) = (f m).isSome) (hf : f (.scalar .undefined) = none) :
    (TypeTree.undefined ∈ members.image r.tree ∧
        ∀ t ∈ (members.image r.tree).toList, t ≠ TypeTree.undefined → p t) ↔
      TypeId.scalar .undefined ∈ members ∧
        (members.toList.filterMap f).length + 1 = members.size := by
  rw [undefined_mem_image hr hM, forall_image_iff]
  refine and_congr_right fun hu ↦ ?_
  rw [Ordered.size, length_filterMap_add_one_iff members.nodup_toList hu hf]
  refine forall₂_congr fun m hm ↦ ?_
  rw [Ne, tree_eq_undefined_iff hr (hM m hm), hp m (hM m hm)]

theorem all_iff (hM : ∀ m ∈ members, r.Knows m) {β : Type} {f : TypeId → Option β}
    {p : TypeTree → Bool} (hp : ∀ m, r.Knows m → p (r.tree m) = (f m).isSome) :
    (∀ t ∈ (members.image r.tree).toList, p t) ↔
      (members.toList.filterMap f).length = members.size := by
  rw [forall_image_iff, Ordered.size, List.filterMap_length_eq_length]
  exact forall₂_congr fun m hm ↦ by rw [hp m (hM m hm)]

theorem FoldRule.select_of_nil (h : members.toList = []) :
    FoldRule.select r members = .bottom := by
  rw [FoldRule.select]
  split
  · rfl
  · next h' => rw [h] at h'; cases h'
  · next h' _ => exact absurd h h'

theorem FoldRule.select_of_singleton {only : TypeId} (h : members.toList = [only]) :
    FoldRule.select r members = .identity only := by
  rw [FoldRule.select]
  split
  · next h' => rw [h] at h'; cases h'
  · next h' => rw [h] at h'; cases h'; rfl
  · next h' => exact absurd h (h' only)

theorem FoldRule.select_of_two {a b : TypeId} {l : List TypeId} (h : members.toList = a :: b :: l) :
    FoldRule.select r members =
      if (members.toList.filterMap r.item?).length = members.size then
        .arrays (members.toList.filterMap r.item?)
      else if (members.toList.filterMap r.fields?).length = members.size then
        .objects (members.toList.filterMap r.fields?)
      else if TypeId.scalar .undefined ∈ members ∧
          (members.toList.filterMap r.item?).length + 1 = members.size then
        .optionalArrays (members.toList.filterMap r.item?)
      else if TypeId.scalar .undefined ∈ members ∧
          (members.toList.filterMap r.fields?).length + 1 = members.size then
        .optionalObjects (members.toList.filterMap r.fields?)
      else .mixed := by
  rw [FoldRule.select]
  split
  · next h' => rw [h] at h'; cases h'
  · next h' => rw [h] at h'; cases h'
  · simp only [decide_eq_true_eq]

/-- Different ids have different trees, so two members stay two. -/
theorem exists_toList_image (hr : r.WellFormed) (hM : ∀ m ∈ members, r.Knows m) {a b : TypeId}
    {l : List TypeId} (h : members.toList = a :: b :: l) :
    ∃ t u ts, (members.image r.tree).toList = t :: u :: ts := by
  obtain ⟨ha, hb, hab⟩ := Ordered.ne_of_toList_eq_cons_cons h
  have hmem : ∀ m ∈ members, r.tree m ∈ members.image r.tree :=
    fun m hm ↦ Ordered.mem_image.2 ⟨m, hm, rfl⟩
  exact Ordered.exists_toList_eq_cons_cons (hmem a ha) (hmem b hb) fun he ↦
    hab (hr.tree_inj (hM a ha) (hM b hb) he)

/-- **The rule for the ids is the rule for their trees.** -/
theorem FoldRule.select_cases (hr : r.WellFormed) (hM : ∀ m ∈ members, r.Knows m) :
    match FoldRule.select r members with
    | .bottom => TypeTree.fold (members.image r.tree) = .bottom
    | .identity only => only ∈ members ∧ TypeTree.fold (members.image r.tree) = r.tree only
    | .arrays items =>
      (items = members.toList.filterMap r.item? ∧ items ≠ []) ∧
        TypeTree.fold (members.image r.tree) =
          .array (TypeTree.fold (TreeSet.items (members.image r.tree)))
    | .objects shapes =>
      (shapes = members.toList.filterMap r.fields? ∧ shapes ≠ []) ∧
        TypeTree.fold (members.image r.tree) = TypeTree.foldObjects (members.image r.tree)
    | .optionalArrays items =>
      (items = members.toList.filterMap r.item? ∧ items ≠ []) ∧
        TypeTree.fold (members.image r.tree) =
          TypeTree.orUndefined (.array (TypeTree.fold (TreeSet.items (members.image r.tree))))
    | .optionalObjects shapes =>
      (shapes = members.toList.filterMap r.fields? ∧ shapes ≠ []) ∧
        TypeTree.fold (members.image r.tree) =
          TypeTree.orUndefined (TypeTree.foldObjects (members.image r.tree))
    | .mixed => TypeTree.fold (members.image r.tree) = TypeTree.join (members.image r.tree) := by
  obtain h | ⟨only, h⟩ | ⟨a, b, l, h⟩ : members.toList = [] ∨ (∃ a, members.toList = [a]) ∨
      ∃ a b l, members.toList = a :: b :: l := by
    rcases members.toList with _ | ⟨a, _ | ⟨b, l⟩⟩
    · exact .inl rfl
    · exact .inr (.inl ⟨a, rfl⟩)
    · exact .inr (.inr ⟨a, b, l, rfl⟩)
  · rw [FoldRule.select_of_nil h]
    refine TypeTree.fold_of_nil (Ordered.toList_eq_nil_iff.2 fun t ht ↦ ?_)
    obtain ⟨m, hm, -⟩ := Ordered.mem_image.1 ht
    exact Ordered.toList_eq_nil_iff.1 h m hm
  · have honly : ∀ a, a ∈ members ↔ a = only := Ordered.toList_eq_singleton_iff.1 h
    rw [FoldRule.select_of_singleton h]
    refine ⟨(honly only).2 rfl, TypeTree.fold_of_singleton ?_⟩
    rw [Ordered.toList_eq_singleton_iff]
    intro t
    simp [honly, eq_comm]
  · obtain ⟨t, u, ts, hS⟩ := exists_toList_image hr hM h
    have hsize : members.size = l.length + 2 := by rw [Ordered.size, h]; rfl
    have hne : ∀ {α : Type} {parts : List α}, members.size ≤ parts.length + 1 → parts ≠ [] := by
      rintro α parts hle rfl
      rw [hsize, List.length_nil] at hle
      omega
    rw [FoldRule.select_of_two h, TypeTree.fold_of_two hS]
    simp only [all_iff hM fun m hm ↦ hr.isArray_tree hm,
      all_iff hM fun m hm ↦ hr.isObject_tree hm,
      all_but_undefined_iff hr hM (fun m hm ↦ hr.isArray_tree hm) rfl,
      all_but_undefined_iff hr hM (fun m hm ↦ hr.isObject_tree hm) rfl]
    split_ifs with h₁ h₂ h₃ h₄
    · exact ⟨⟨rfl, hne (by omega)⟩, rfl⟩
    · exact ⟨⟨rfl, hne (by omega)⟩, rfl⟩
    · exact ⟨⟨rfl, hne (by omega)⟩, rfl⟩
    · exact ⟨⟨rfl, hne (by omega)⟩, rfl⟩
    · rfl

end Rule

end Silhouette
