import Silhouette.Proofs.TypeTree.Canonical

/-!
# Folding with the type without values

`TypeTree.bottom` has no alternatives, so a join does not see it.  A fold does: `bottom` is neither
a list nor an object nor `undefined`, and where it is among several members the last rule decides.
So the fold of a set with `bottom` is always the join of the rest (`fold_insert_bottom`).

For most sets that is also what the fold of the rest is.  The exception are the sets that a fold
**condenses** (`TreeSet.Condenses`): `undefined` apart, several lists or several objects.  There one
list or one object is made of the members if they are by themselves, and a union of all of them if
`bottom` is there too, and these are always different (`fold_insert_bottom_eq_iff`).

What is said of members is said one level up of lists, where the empty list stands for `bottom`
(`fold_insert_emptyList_eq_iff`).
-/

set_option autoImplicit false

namespace Silhouette

open TypeTree

namespace TreeSet

/-- Several members that a fold makes one of: `undefined` apart, all are lists or all objects. -/
def Condenses (members : TreeSet) : Prop :=
  (∃ t ∈ members.defined, ∃ u ∈ members.defined, t ≠ u) ∧
    ((∀ t ∈ members.defined, t.isArray) ∨ ∀ t ∈ members.defined, t.isObject)

/-- A member that is no list, no object and not `undefined` keeps a set from being condensed. -/
theorem not_condenses_of_mem {members : TreeSet} {t : TypeTree} (h : t ∈ members)
    (hu : t ≠ undefined) (harr : ¬ t.isArray) (hobj : ¬ t.isObject) : ¬ members.Condenses := by
  have hdef : t ∈ members.defined := mem_defined.2 ⟨h, hu⟩
  rintro ⟨-, hall | hall⟩
  · exact harr (hall t hdef)
  · exact hobj (hall t hdef)

theorem alternatives_insert_bottom (members : TreeSet) :
    TreeSet.alternatives (members.insert bottom) = members.alternatives := by
  refine Ordered.ext_mem fun t ↦ ?_
  simp only [mem_alternatives, Ordered.mem_insert_set, or_and_right, exists_or, exists_eq_left]
  exact or_iff_right fun h ↦ absurd h List.not_mem_nil

theorem items_insert_array (members : TreeSet) (t : TypeTree) :
    TreeSet.items (members.insert (.array t)) = members.items.insert t := by
  refine Ordered.ext_mem fun u ↦ ?_
  simp only [mem_items, Ordered.mem_insert_set, TypeTree.array.injEq]

end TreeSet

namespace TypeTree

/-! ## Members of one form -/

/-- An object is what is made of it if it is the only one. -/
theorem foldObjects_eq_of_defined {members : TreeSet} {t : TypeTree}
    (h : members.defined.toList = [t]) (ht : t.Canonical) (ho : t.isObject) :
    foldObjects members = t := by
  have honly := Ordered.toList_eq_singleton_iff.1 h
  obtain ⟨fs, rfl⟩ := isObject_iff.1 ho
  obtain ⟨fields, rfl, -⟩ := ht.exists_fields
  have hkeys : members.defined.keys.toList = fields.toList.map Prod.fst := by
    have hinc : (fields.toList.map Prod.fst).Pairwise fun a b ↦ compare a b = .lt :=
      List.pairwise_map.2 fields.increasing
    have hset : members.defined.keys = ⟨fields.toList.map Prod.fst, hinc⟩ := by
      refine Ordered.ext_mem fun key ↦ ?_
      rw [TreeSet.mem_keys]
      simp [honly, TypeTree.keys, fields?, Ordered.mem_def]
    rw [hset]
  -- a field of the only object is the field of the fold
  have hfield : ∀ e ∈ fields.toList, (e.1, members.defined.presenceAt e.1,
      fold (members.defined.typesAt e.1)) = e := by
    rintro ⟨key, p, u⟩ he
    have hlook : field? key (.object fields.toList) = some (p, u) :=
      TreeFields.lookup_toList_iff.2 he
    have htypes : (members.defined.typesAt key).toList = [u] := by
      refine Ordered.toList_eq_singleton_iff.2 fun v ↦ ?_
      rw [TreeSet.mem_typesAt]
      simp [honly, hlook, eq_comm]
    have hpres : members.defined.presenceAt key = .required ↔ p = .required := by
      rw [TreeSet.presenceAt_eq_required_iff]
      simp [honly, hlook, isObject, fields?]
    rw [fold_of_singleton htypes]
    cases p <;> cases hp : members.defined.presenceAt key <;> simp_all
  rw [← foldObjects_defined, foldObjects, hkeys, List.map_map]
  exact congrArg TypeTree.object ((List.map_congr_left hfield).trans (List.map_id _))

/-- Lists, with `undefined` or without, fold to one list, with `undefined` or without. -/
theorem fold_of_lists {members : TreeSet} (hne : ∃ t ∈ members, t.isArray)
    (hall : ∀ t ∈ members.defined, t.isArray) :
    fold members = if undefined ∈ members then orUndefined (.array (fold members.items))
      else .array (fold members.items) := by
  obtain ⟨t, ht, harr⟩ := hne
  have hothers : ∀ u ∈ members.toList, u ≠ undefined → u.isArray :=
    fun u hu hnu ↦ hall u (TreeSet.mem_defined.2 ⟨hu, hnu⟩)
  split
  · next hu =>
    have htu : t ≠ undefined := by
      rintro rfl
      cases harr
    obtain ⟨a, b, l, hl⟩ := Ordered.exists_toList_eq_cons_cons ht hu htu
    have hnotArrays : ¬ ∀ u ∈ members.toList, u.isArray := fun h ↦ absurd (h _ hu) (by decide)
    have hnotObjects : ¬ ∀ u ∈ members.toList, u.isObject := fun h ↦ absurd (h _ hu) (by decide)
    rw [fold_of_two hl, if_neg hnotArrays, if_neg hnotObjects, if_pos ⟨hu, hothers⟩]
  · next hu =>
    have harrays : ∀ u ∈ members.toList, u.isArray := fun u hmem ↦
      hothers u hmem fun e ↦ hu (e ▸ hmem)
    match hl : members.toList with
    | [] =>
      rw [Ordered.mem_def, hl] at ht
      cases ht
    | [only] =>
      rw [Ordered.mem_def, hl, List.mem_singleton] at ht
      obtain ⟨item, rfl⟩ := isArray_iff.1 harr
      subst ht
      have hitems : members.items.toList = [item] := by
        refine Ordered.toList_eq_singleton_iff.2 fun u ↦ ?_
        rw [TreeSet.mem_items, Ordered.mem_def, hl, List.mem_singleton, TypeTree.array.injEq]
      rw [fold_of_singleton hl, fold_of_singleton hitems]
    | a :: b :: l => rw [fold_of_two hl, if_pos harrays]

/-- Objects, with `undefined` or without, fold to one object, with `undefined` or without. -/
theorem fold_of_objects {members : TreeSet} (hM : ∀ t ∈ members, t.Canonical)
    (hne : ∃ t ∈ members, t.isObject) (hall : ∀ t ∈ members.defined, t.isObject) :
    fold members = if undefined ∈ members then orUndefined (foldObjects members)
      else foldObjects members := by
  obtain ⟨t, ht, hobj⟩ := hne
  have hothers : ∀ u ∈ members.toList, u ≠ undefined → u.isObject :=
    fun u hu hnu ↦ hall u (TreeSet.mem_defined.2 ⟨hu, hnu⟩)
  have htu : t ≠ undefined := by
    rintro rfl
    cases hobj
  have hno : ¬ t.isArray := by
    obtain ⟨fs, rfl⟩ := isObject_iff.1 hobj
    exact Bool.false_ne_true
  have hnotArrays : ¬ ∀ u ∈ members.toList, u.isArray := fun h ↦ hno (h t ht)
  split
  · next hu =>
    obtain ⟨a, b, l, hl⟩ := Ordered.exists_toList_eq_cons_cons ht hu htu
    have hnotObjects : ¬ ∀ u ∈ members.toList, u.isObject := fun h ↦ absurd (h _ hu) (by decide)
    have hnotOptional : ¬ (undefined ∈ members ∧
        ∀ u ∈ members.toList, u ≠ undefined → u.isArray) := fun h ↦ hno (h.2 t ht htu)
    rw [fold_of_two hl, if_neg hnotArrays, if_neg hnotObjects, if_neg hnotOptional,
      if_pos ⟨hu, hothers⟩]
  · next hu =>
    have hobjects : ∀ u ∈ members.toList, u.isObject := fun u hmem ↦
      hothers u hmem fun e ↦ hu (e ▸ hmem)
    match hl : members.toList with
    | [] =>
      rw [Ordered.mem_def, hl] at ht
      cases ht
    | [only] =>
      rw [Ordered.mem_def, hl, List.mem_singleton] at ht
      subst ht
      have hdef : members.defined.toList = [t] := by
        refine Ordered.toList_eq_singleton_iff.2 fun u ↦ ?_
        rw [TreeSet.mem_defined, Ordered.mem_def, hl, List.mem_singleton]
        exact and_iff_left_of_imp fun e ↦ e ▸ htu
      have hmem : t ∈ members := by simp [Ordered.mem_def, hl]
      rw [fold_of_singleton hl, foldObjects_eq_of_defined hdef (hM t hmem) hobj]
    | a :: b :: l => rw [fold_of_two hl, if_neg hnotArrays, if_pos hobjects]

/-! ## Neutral or not -/

/-- With `bottom` among them, types are joined and not merged. -/
theorem fold_insert_bottom {members : TreeSet} (hne : ∃ t, t ∈ members) (hb : bottom ∉ members) :
    fold (members.insert bottom) = join members := by
  obtain ⟨t, ht⟩ := hne
  have hmem : bottom ∈ (members.insert bottom).toList := Ordered.mem_insert_self _ _
  have htb : t ≠ bottom := fun e ↦ hb (e ▸ ht)
  obtain ⟨a, b, l, hl⟩ :=
    Ordered.exists_toList_eq_cons_cons (Ordered.mem_insert_set.2 (.inr ht)) hmem htb
  have hnotArrays : ¬ ∀ u ∈ (members.insert bottom).toList, u.isArray :=
    fun h ↦ absurd (h _ hmem) (by decide)
  have hnotObjects : ¬ ∀ u ∈ (members.insert bottom).toList, u.isObject :=
    fun h ↦ absurd (h _ hmem) (by decide)
  have hdef : bottom ≠ undefined := fun e ↦ by cases e
  rw [fold_of_two hl, if_neg hnotArrays, if_neg hnotObjects,
    if_neg fun h ↦ absurd (h.2 _ hmem hdef) (by decide),
    if_neg fun h ↦ absurd (h.2 _ hmem hdef) (by decide)]
  exact join_congr members.alternatives_insert_bottom

section Canonical

variable {members : TreeSet} (hM : ∀ t ∈ members, t.Canonical)
include hM

/-- What is not condensed is joined. -/
theorem fold_eq_join (hne : ∃ t, t ∈ members) (hno : ¬ members.Condenses) :
    fold members = join members := by
  -- `undefined` apart there is one member, if all of them have one form
  have hone : ∀ {a b : TypeTree}, a ∈ members → b ∈ members → a ≠ b →
      ((∀ t ∈ members.defined, t.isArray) ∨ ∀ t ∈ members.defined, t.isObject) →
        undefined ∈ members ∧ ∃ t, members.defined.toList = [t] := by
    intro a b ha hb hab hall
    have hsame : ∀ t ∈ members.defined, ∀ u ∈ members.defined, t = u := by
      intro t ht u hu
      by_contra htu
      exact hno ⟨⟨t, ht, u, hu, htu⟩, hall⟩
    have hu : undefined ∈ members := by
      by_contra hu
      exact hab (hsame a (TreeSet.mem_defined.2 ⟨ha, fun e ↦ hu (e ▸ ha)⟩)
        b (TreeSet.mem_defined.2 ⟨hb, fun e ↦ hu (e ▸ hb)⟩))
    obtain ⟨t, ht⟩ : ∃ t, t ∈ members.defined := by
      by_cases hau : a = undefined
      · exact ⟨b, TreeSet.mem_defined.2 ⟨hb, fun e ↦ hab (hau.trans e.symm)⟩⟩
      · exact ⟨a, TreeSet.mem_defined.2 ⟨ha, hau⟩⟩
    exact ⟨hu, t, Ordered.toList_eq_singleton_iff.2 fun u ↦
      ⟨fun hu ↦ hsame u hu t ht, fun e ↦ e ▸ ht⟩⟩
  -- so it and `undefined` are all there is
  have hpair : ∀ {t : TypeTree}, undefined ∈ members → members.defined.toList = [t] →
      orUndefined t = join members := by
    intro t hu ht
    have hmem := Ordered.toList_eq_singleton_iff.1 ht
    have hset : (.ofList [t, undefined] : TreeSet) = members := by
      refine Ordered.ext_mem fun u ↦ ?_
      rw [mem_orUndefined_pair, ← hmem, TreeSet.mem_defined]
      by_cases hnu : u = undefined
      · simp [hnu, hu]
      · simp [hnu]
    rw [orUndefined, hset]
  obtain ⟨x, hx⟩ := hne
  rcases hl : members.toList with _ | ⟨a, _ | ⟨b, l⟩⟩
  · rw [Ordered.mem_def, hl] at hx
    cases hx
  · have ha : a ∈ members := by simp [Ordered.mem_def, hl]
    rw [fold_of_singleton hl, join_singleton hl (hM a ha)]
  · obtain ⟨ha, hb, hab⟩ := Ordered.ne_of_toList_eq_cons_cons hl
    by_cases harrays : ∀ t ∈ members.defined, t.isArray
    · obtain ⟨hu, t, ht⟩ := hone ha hb hab (.inl harrays)
      have hmem := Ordered.toList_eq_singleton_iff.1 ht
      have htM := TreeSet.mem_defined.1 ((hmem t).2 rfl)
      have harr := harrays t ((hmem t).2 rfl)
      obtain ⟨item, rfl⟩ := isArray_iff.1 harr
      have hitems : members.items.toList = [item] := by
        refine Ordered.toList_eq_singleton_iff.2 fun u ↦ ?_
        rw [← TreeSet.items_defined, TreeSet.mem_items, hmem, TypeTree.array.injEq]
      rw [fold_of_lists ⟨_, htM.1, harr⟩ harrays, if_pos hu, fold_of_singleton hitems, hpair hu ht]
    by_cases hobjects : ∀ t ∈ members.defined, t.isObject
    · obtain ⟨hu, t, ht⟩ := hone ha hb hab (.inr hobjects)
      have hmem := (Ordered.toList_eq_singleton_iff.1 ht t).2 rfl
      have htM := (TreeSet.mem_defined.1 hmem).1
      rw [fold_of_objects hM ⟨t, htM, hobjects t hmem⟩ hobjects, if_pos hu,
        foldObjects_eq_of_defined ht (hM t htM) (hobjects t hmem), hpair hu ht]
    · have hnot : ∀ {p : TypeTree → Bool}, (¬ ∀ t ∈ members.defined, p t) →
          (¬ ∀ t ∈ members.toList, p t) ∧
            ¬ (undefined ∈ members ∧ ∀ t ∈ members.toList, t ≠ undefined → p t) := by
        intro p hp
        exact ⟨fun h ↦ hp fun t ht ↦ h t (TreeSet.mem_defined.1 ht).1,
          fun h ↦ hp fun t ht ↦ h.2 t (TreeSet.mem_defined.1 ht).1 (TreeSet.mem_defined.1 ht).2⟩
      rw [fold_of_two hl, if_neg (hnot harrays).1, if_neg (hnot hobjects).1,
        if_neg (hnot harrays).2, if_neg (hnot hobjects).2]

/-- What is condensed is one type, or one type and `undefined`. -/
theorem exists_of_condenses (h : members.Condenses) :
    ∃ t, ∀ u ∈ (fold members).alternatives, u = t ∨ u = undefined := by
  have hopt : ∀ {t : TypeTree}, t.Canonical → ¬ t.IsUnion →
      ∀ u ∈ (if undefined ∈ members then orUndefined t else t).alternatives,
        u = t ∨ u = undefined := by
    intro t ht hno u hu
    split at hu
    · exact (mem_alternatives_orUndefined ht hno).1 hu
    · rw [alternatives_of_not_isUnion hno, List.mem_singleton] at hu
      exact .inl hu
  obtain ⟨⟨t, ht, -⟩, hall | hall⟩ := h
  · refine ⟨.array (fold members.items), ?_⟩
    rw [fold_of_lists ⟨t, (TreeSet.mem_defined.1 ht).1, hall t ht⟩ hall]
    exact hopt (.array (canonical_fold (TreeSet.canonical_items hM))) (not_isUnion_of_isArray rfl)
  · refine ⟨foldObjects members, ?_⟩
    rw [fold_of_objects hM ⟨t, (TreeSet.mem_defined.1 ht).1, hall t ht⟩ hall]
    exact hopt (canonical_foldObjects fun key ↦ canonical_fold (TreeSet.canonical_typesAt hM key))
      (not_isUnion_of_isObject rfl)

/-- What is condensed is not joined. -/
theorem fold_ne_join (h : members.Condenses) : fold members ≠ join members := by
  intro he
  obtain ⟨t, ht⟩ := exists_of_condenses hM h
  -- every member that is not `undefined` is an alternative of the join
  have hmem : ∀ u ∈ members.defined, u = t := by
    intro u hu
    have hno : ¬ u.IsUnion := by
      rcases h.2 with hall | hall
      · exact not_isUnion_of_isArray (hall u hu)
      · exact not_isUnion_of_isObject (hall u hu)
    obtain ⟨huM, hund⟩ := TreeSet.mem_defined.1 hu
    have halt : u ∈ members.alternatives := TreeSet.mem_alternatives.2
      ⟨u, huM, by rw [alternatives_of_not_isUnion hno]; exact List.mem_singleton_self u⟩
    rw [← mem_alternatives_join hM, ← he] at halt
    exact (ht u halt).resolve_right hund
  obtain ⟨⟨a, ha, b, hb, hab⟩, -⟩ := h
  exact hab ((hmem a ha).trans (hmem b hb).symm)

/-- **`bottom` is neutral for the fold of just those sets that are not condensed.** -/
theorem fold_insert_bottom_eq_iff (hne : ∃ t, t ∈ members) :
    fold (members.insert bottom) = fold members ↔ ¬ members.Condenses := by
  by_cases hb : bottom ∈ members
  · have hsame : members.insert bottom = members := by
      refine Ordered.ext_mem fun t ↦ ?_
      rw [Ordered.mem_insert_set]
      exact or_iff_right_of_imp fun e ↦ e ▸ hb
    rw [hsame]
    exact iff_of_true rfl
      (TreeSet.not_condenses_of_mem hb (fun e ↦ by cases e) (by decide) (by decide))
  · rw [fold_insert_bottom hne hb]
    exact ⟨fun h hc ↦ fold_ne_join hM hc h.symm, fun h ↦ (fold_eq_join hM hne h).symm⟩

end Canonical

/-! ## The empty list among lists -/

/-- Lists are told apart by their elements, also if they may be missing. -/
theorem orUndefined_array_inj {t u : TypeTree} (ht : t.Canonical) (hu : u.Canonical)
    (h : orUndefined (.array t) = orUndefined (.array u)) : t = u := by
  have hmem := (mem_alternatives_orUndefined (.array ht) (not_isUnion_of_isArray rfl)).2 (.inl rfl)
  rw [h, mem_alternatives_orUndefined (.array hu) (not_isUnion_of_isArray rfl)] at hmem
  rcases hmem with he | he
  · exact TypeTree.array.inj he
  · cases he

/-- **An empty list is neutral among lists whose elements are not condensed**, and among others it
is not. -/
theorem fold_insert_emptyList_eq_iff {members : TreeSet} (hM : ∀ t ∈ members, t.Canonical)
    (hne : ∃ t ∈ members, t.isArray) (hall : ∀ t ∈ members.defined, t.isArray) :
    fold (members.insert (.array bottom)) = fold members ↔ ¬ members.items.Condenses := by
  have hitems := TreeSet.canonical_items hM
  have hitem : ∃ u, u ∈ members.items := by
    obtain ⟨t, ht, harr⟩ := hne
    obtain ⟨u, rfl⟩ := isArray_iff.1 harr
    exact ⟨u, TreeSet.mem_items.2 ht⟩
  have hbot : ∀ t ∈ members.items.insert bottom, t.Canonical := by
    intro t ht
    rcases Ordered.mem_insert_set.1 ht with rfl | ht
    · exact canonical_bottom
    · exact hitems t ht
  have hall' : ∀ t ∈ TreeSet.defined (members.insert (.array bottom)), t.isArray := by
    intro t ht
    obtain ⟨ht, hund⟩ := TreeSet.mem_defined.1 ht
    rcases Ordered.mem_insert_set.1 ht with rfl | ht
    · rfl
    · exact hall t (TreeSet.mem_defined.2 ⟨ht, hund⟩)
  have hne' : ∃ t ∈ members.insert (.array bottom), t.isArray :=
    ⟨_, Ordered.mem_insert_self _ _, rfl⟩
  have hund : undefined ∈ members.insert (.array bottom) ↔ undefined ∈ members := by
    rw [Ordered.mem_insert_set]
    exact or_iff_right fun e ↦ by cases e
  rw [fold_of_lists hne' hall', fold_of_lists hne hall, TreeSet.items_insert_array,
    ← fold_insert_bottom_eq_iff hitems hitem]
  by_cases hu : undefined ∈ members
  · rw [if_pos hu, if_pos (hund.2 hu)]
    exact ⟨fun h ↦ orUndefined_array_inj (canonical_fold hbot) (canonical_fold hitems) h,
      fun h ↦ by rw [h]⟩
  · rw [if_neg hu, if_neg fun h ↦ hu (hund.1 h), TypeTree.array.injEq]

/-- What objects are folded to is there whether or not they may be missing. -/
theorem foldObjects_mem_alternatives {members : TreeSet} (hM : ∀ t ∈ members, t.Canonical)
    (hne : ∃ t ∈ members, t.isObject) (hall : ∀ t ∈ members.defined, t.isObject) :
    foldObjects members ∈ (fold members).alternatives := by
  have hno : ¬ (foldObjects members).IsUnion := not_isUnion_of_isObject rfl
  have hcanon : (foldObjects members).Canonical :=
    canonical_foldObjects fun key ↦ canonical_fold (TreeSet.canonical_typesAt hM key)
  rw [fold_of_objects hM hne hall]
  split
  · exact (mem_alternatives_orUndefined hcanon hno).2 (.inl rfl)
  · rw [alternatives_of_not_isUnion hno]
    exact List.mem_singleton_self _

end TypeTree

end Silhouette
