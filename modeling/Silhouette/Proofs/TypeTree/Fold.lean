import Silhouette.Proofs.TypeTree.Basic

/-!
# The fold of a set of trees

`TypeTree.fold` summarises a set of type trees by one.  It is the rule book of folding and nothing
else: no ids, no registry, no order in which anything is registered.  The first rule that fits
decides:

1. no trees: the type without values;
2. one tree: that tree;
3. all lists: the list over the fold of the element types;
4. all objects: one object with every key of any of them.  A field is required if every object has
   it as required; its type is the fold of the types that it has;
5. lists and `undefined`: what rule 3 makes of the lists, or `undefined`;
6. objects and `undefined`: what rule 4 makes of the objects, or `undefined`;
7. anything else: the union of all alternatives, or the only one (`TypeTree.join`).

Rules 3 to 6 go on with parts of the trees, so the greatest height of a tree bounds the recursion.
-/

set_option autoImplicit false

namespace Silhouette

/-! ## Height -/

namespace TypeTree

mutual

/-- How deep a tree is. -/
def height : TypeTree → Nat
  | .scalar _ => 1
  | .object fields => heightFields fields + 1
  | .array item => height item + 1
  | .union members => heightMembers members + 1

def heightFields : List (String × Presence × TypeTree) → Nat
  | [] => 0
  | (_, _, t) :: rest => max (height t) (heightFields rest)

/-- The greatest height in a list of trees. -/
def heightMembers : List TypeTree → Nat
  | [] => 0
  | t :: rest => max (height t) (heightMembers rest)

end

theorem height_pos (t : TypeTree) : 0 < t.height := by
  cases t <;> simp [height]

theorem height_le_heightMembers {t : TypeTree} {l : List TypeTree} (h : t ∈ l) :
    t.height ≤ heightMembers l := by
  induction l with
  | nil => cases h
  | cons u l ih =>
    rw [heightMembers]
    rcases List.mem_cons.1 h with rfl | h
    · exact Nat.le_max_left _ _
    · exact Nat.le_trans (ih h) (Nat.le_max_right _ _)

theorem heightMembers_lt {l : List TypeTree} {n : Nat} (hn : 0 < n) (h : ∀ t ∈ l, t.height < n) :
    heightMembers l < n := by
  induction l with
  | nil => exact hn
  | cons u l ih =>
    rw [heightMembers]
    exact Nat.max_lt.2 ⟨h u List.mem_cons_self, ih fun t ht ↦ h t (List.mem_cons_of_mem _ ht)⟩

/-- Trees that are all lower than some tree of a list are lower than the list. -/
theorem heightMembers_lt_heightMembers {l m : List TypeTree} (hm : m ≠ [])
    (h : ∀ t ∈ l, ∃ u ∈ m, t.height < u.height) : heightMembers l < heightMembers m := by
  refine heightMembers_lt ?_ fun t ht ↦ ?_
  · obtain ⟨u, hu⟩ := List.exists_mem_of_ne_nil m hm
    exact Nat.lt_of_lt_of_le u.height_pos (height_le_heightMembers hu)
  · obtain ⟨u, hu, hlt⟩ := h t ht
    exact Nat.lt_of_lt_of_le hlt (height_le_heightMembers hu)

theorem height_lt_of_item? {t u : TypeTree} (h : t.item? = some u) : u.height < t.height := by
  cases t with
  | array item =>
    cases h
    exact Nat.lt_succ_self _
  | _ => cases h

theorem height_le_heightFields {key : String} {p : Presence} {t : TypeTree}
    {fields : List (String × Presence × TypeTree)} (h : fields.lookup key = some (p, t)) :
    t.height ≤ heightFields fields := by
  induction fields with
  | nil => cases h
  | cons e rest ih =>
    obtain ⟨k, q, u⟩ := e
    rw [heightFields]
    rw [List.lookup_cons] at h
    split at h
    · cases h
      exact Nat.le_max_left _ _
    · exact Nat.le_trans (ih h) (Nat.le_max_right _ _)

theorem height_lt_of_field? {key : String} {p : Presence} {t u : TypeTree}
    (h : t.field? key = some (p, u)) : u.height < t.height := by
  cases t with
  | object fields => exact Nat.lt_succ_of_le (height_le_heightFields h)
  | _ => cases h

/-- A value that is not there. -/
def undefined : TypeTree := .scalar .undefined

end TypeTree

/-! ## The parts of a set of trees -/

namespace TreeSet

/-- The element types of the lists in a set. -/
def items (members : TreeSet) : TreeSet := .ofList (members.toList.filterMap TypeTree.item?)

/-- All keys of the objects in a set. -/
def keys (members : TreeSet) : KeySet := .ofList (members.toList.flatMap TypeTree.keys)

/-- The types of the fields under one key. -/
def typesAt (members : TreeSet) (key : String) : TreeSet :=
  .ofList ((members.toList.filterMap (TypeTree.field? key)).map Prod.snd)

/-- A field is required if every object has it as required. -/
def presenceAt (members : TreeSet) (key : String) : Presence :=
  if ∀ t ∈ members.toList, t.isObject → (t.field? key).map Prod.fst = some .required
  then .required else .optional

/-- All alternatives of the trees in a set. -/
def alternatives (members : TreeSet) : TreeSet :=
  .ofList (members.toList.flatMap TypeTree.alternatives)

theorem mem_items {members : TreeSet} {u : TypeTree} : u ∈ members.items ↔ .array u ∈ members := by
  rw [items, Ordered.mem_ofList, List.mem_filterMap]
  refine ⟨?_, ?_⟩
  · rintro ⟨t, ht, hu⟩
    cases t with
    | array item => cases hu; exact ht
    | _ => cases hu
  · exact fun h ↦ ⟨.array u, h, rfl⟩

theorem mem_keys {members : TreeSet} {key : String} :
    key ∈ members.keys ↔ ∃ t ∈ members, key ∈ t.keys := by
  rw [keys, Ordered.mem_ofList, List.mem_flatMap]
  rfl

theorem mem_typesAt {members : TreeSet} {key : String} {u : TypeTree} :
    u ∈ members.typesAt key ↔ ∃ t ∈ members, ∃ p, t.field? key = some (p, u) := by
  rw [typesAt, Ordered.mem_ofList, List.mem_map]
  refine ⟨?_, ?_⟩
  · rintro ⟨⟨p, v⟩, h, rfl⟩
    obtain ⟨t, ht, hv⟩ := List.mem_filterMap.1 h
    exact ⟨t, ht, p, hv⟩
  · rintro ⟨t, ht, p, hu⟩
    exact ⟨(p, u), List.mem_filterMap.2 ⟨t, ht, hu⟩, rfl⟩

theorem mem_alternatives {members : TreeSet} {u : TypeTree} :
    u ∈ members.alternatives ↔ ∃ t ∈ members, u ∈ t.alternatives := by
  rw [alternatives, Ordered.mem_ofList, List.mem_flatMap]
  rfl

theorem presenceAt_eq_required_iff {members : TreeSet} {key : String} :
    members.presenceAt key = .required ↔
      ∀ t ∈ members, t.isObject → ∃ u, t.field? key = some (.required, u) := by
  have hf : ∀ t : TypeTree, (t.field? key).map Prod.fst = some .required ↔
      ∃ u, t.field? key = some (.required, u) := by
    intro t
    rw [Option.map_eq_some_iff]
    refine ⟨?_, ?_⟩
    · rintro ⟨⟨p, u⟩, h, rfl⟩
      exact ⟨u, h⟩
    · rintro ⟨u, h⟩
      exact ⟨_, h, rfl⟩
  rw [presenceAt]
  split
  · next h => exact iff_of_true rfl fun t ht ho ↦ (hf t).1 (h t ht ho)
  · next h =>
    exact iff_of_false (by decide) fun h' ↦ h fun t ht ho ↦ (hf t).2 (h' t ht ho)

/-- The greatest height in a set. -/
def height (members : TreeSet) : Nat := TypeTree.heightMembers members.toList

theorem height_items_lt {members : TreeSet} (h : members.toList ≠ []) :
    members.items.height < members.height :=
  TypeTree.heightMembers_lt_heightMembers h fun _ hu ↦
    ⟨_, mem_items.1 hu, TypeTree.height_lt_of_item? rfl⟩

theorem height_typesAt_lt {members : TreeSet} (h : members.toList ≠ []) (key : String) :
    (members.typesAt key).height < members.height :=
  TypeTree.heightMembers_lt_heightMembers h fun _ hu ↦
    let ⟨t, ht, _, hf⟩ := mem_typesAt.1 hu
    ⟨t, ht, TypeTree.height_lt_of_field? hf⟩

end TreeSet

/-! ## The rules -/

namespace TypeTree

/-- The union of all alternatives of some trees, or the only one. -/
def join (members : TreeSet) : TypeTree :=
  match members.alternatives.toList with
  | [only] => only
  | _ => ofMembers members.alternatives

theorem join_of_singleton {members : TreeSet} {t : TypeTree}
    (h : members.alternatives.toList = [t]) : join members = t := by
  rw [join, h]

theorem join_of_ne {members : TreeSet} (h : ∀ t, members.alternatives.toList ≠ [t]) :
    join members = ofMembers members.alternatives := by
  rw [join]
  split
  · next only hs => exact absurd hs (h only)
  · rfl

/-- A type or `undefined`. -/
def orUndefined (t : TypeTree) : TypeTree := join (.ofList [t, undefined])

/-- The type that summarises a set of types. -/
def fold (members : TreeSet) : TypeTree :=
  match _h : members.toList with
  | [] => bottom
  | [only] => only
  | _ :: _ :: _ =>
    if ∀ t ∈ members.toList, t.isArray then .array (fold members.items)
    else if ∀ t ∈ members.toList, t.isObject then
      .object (members.keys.toList.map fun key ↦
        (key, members.presenceAt key, fold (members.typesAt key)))
    else if undefined ∈ members ∧ ∀ t ∈ members.toList, t ≠ undefined → t.isArray then
      orUndefined (.array (fold members.items))
    else if undefined ∈ members ∧ ∀ t ∈ members.toList, t ≠ undefined → t.isObject then
      orUndefined (.object (members.keys.toList.map fun key ↦
        (key, members.presenceAt key, fold (members.typesAt key))))
    else join members
termination_by members.height
decreasing_by
  all_goals
    have hne : members.toList ≠ [] := by simp [_h]
    first
      | exact TreeSet.height_items_lt hne
      | exact TreeSet.height_typesAt_lt hne key

/-- Rules 4 and 6: one object for several. -/
def foldObjects (members : TreeSet) : TypeTree :=
  .object (members.keys.toList.map fun key ↦
    (key, members.presenceAt key, fold (members.typesAt key)))

theorem fold_of_nil {members : TreeSet} (h : members.toList = []) : fold members = bottom := by
  rw [fold]
  split
  · rfl
  · next h' => rw [h] at h'; cases h'
  · next h' => rw [h] at h'; cases h'

theorem fold_of_singleton {members : TreeSet} {t : TypeTree} (h : members.toList = [t]) :
    fold members = t := by
  rw [fold]
  split
  · next h' => rw [h] at h'; cases h'
  · next h' => rw [h] at h'; cases h'; rfl
  · next h' => rw [h] at h'; cases h'

/-- Rules 3 to 7. -/
theorem fold_of_two {members : TreeSet} {a b : TypeTree} {l : List TypeTree}
    (h : members.toList = a :: b :: l) :
    fold members =
      if ∀ t ∈ members.toList, t.isArray then .array (fold members.items)
      else if ∀ t ∈ members.toList, t.isObject then foldObjects members
      else if undefined ∈ members ∧ ∀ t ∈ members.toList, t ≠ undefined → t.isArray then
        orUndefined (.array (fold members.items))
      else if undefined ∈ members ∧ ∀ t ∈ members.toList, t ≠ undefined → t.isObject then
        orUndefined (foldObjects members)
      else join members := by
  rw [fold]
  split
  · next h' => rw [h] at h'; cases h'
  · next h' => rw [h] at h'; cases h'
  · rfl

end TypeTree

/-! ## Setting `undefined` aside -/

namespace TreeSet

/-- The trees of a set that are not `undefined`. -/
def defined (members : TreeSet) : TreeSet :=
  .ofList (members.toList.filter fun t ↦ t ≠ TypeTree.undefined)

theorem mem_defined {members : TreeSet} {t : TypeTree} :
    t ∈ members.defined ↔ t ∈ members ∧ t ≠ TypeTree.undefined := by
  rw [defined, Ordered.mem_ofList, List.mem_filter, decide_eq_true_iff]
  rfl

theorem items_defined (members : TreeSet) : members.defined.items = members.items :=
  Ordered.ext_mem fun u ↦ by
    rw [mem_items, mem_items, mem_defined, and_iff_left (by simp [TypeTree.undefined])]

theorem keys_defined (members : TreeSet) : members.defined.keys = members.keys :=
  Ordered.ext_mem fun key ↦ by
    simp only [mem_keys, mem_defined, and_assoc]
    refine exists_congr fun t ↦ and_congr_right fun _ ↦ and_iff_right_of_imp fun hk e ↦ ?_
    subst e
    cases hk

theorem typesAt_defined (members : TreeSet) (key : String) :
    members.defined.typesAt key = members.typesAt key :=
  Ordered.ext_mem fun u ↦ by
    simp only [mem_typesAt, mem_defined, and_assoc]
    refine exists_congr fun t ↦ and_congr_right fun _ ↦ and_iff_right_of_imp fun hf e ↦ ?_
    subst e
    obtain ⟨p, hp⟩ := hf
    cases hp

theorem presenceAt_defined (members : TreeSet) (key : String) :
    members.defined.presenceAt key = members.presenceAt key := by
  have h : members.defined.presenceAt key = .required ↔ members.presenceAt key = .required := by
    rw [presenceAt_eq_required_iff, presenceAt_eq_required_iff]
    refine forall_congr' fun t ↦ ?_
    rw [mem_defined]
    refine ⟨fun h ht ho ↦ h ⟨ht, ?_⟩ ho, fun h ht ho ↦ h ht.1 ho⟩
    rintro rfl
    cases ho
  cases hd : members.defined.presenceAt key <;> cases hm : members.presenceAt key <;>
    simp_all

end TreeSet

namespace TypeTree

theorem foldObjects_defined (members : TreeSet) :
    foldObjects members.defined = foldObjects members := by
  simp only [foldObjects, TreeSet.keys_defined, TreeSet.presenceAt_defined,
    TreeSet.typesAt_defined]

/-- **Induction along the rules.**  Rules 5 and 6 are rules 3 and 4 for the members that are not
`undefined`, with `undefined` added to the result. -/
theorem fold_induction {P : TreeSet → TypeTree → Prop}
    (none : ∀ members : TreeSet, members.toList = [] → P members bottom)
    (one : ∀ (members : TreeSet) (t : TypeTree), members.toList = [t] → P members t)
    (arrays : ∀ members : TreeSet, members.toList ≠ [] → (∀ t ∈ members, t.isArray) →
      P members.items (fold members.items) → P members (.array (fold members.items)))
    (objects : ∀ members : TreeSet, members.toList ≠ [] → (∀ t ∈ members, t.isObject) →
      (∀ key, P (members.typesAt key) (fold (members.typesAt key))) →
      P members (foldObjects members))
    (optional : ∀ (members : TreeSet) (t : TypeTree), undefined ∈ members → t ≠ undefined →
      P members.defined t → P members (orUndefined t))
    (mixed : ∀ members : TreeSet, members.toList ≠ [] → P members (join members))
    (members : TreeSet) : P members (fold members) := by
  induction hn : members.height using Nat.strongRecOn generalizing members with
  | _ n ih =>
  subst hn
  match hm : members.toList with
  | [] => rw [fold_of_nil hm]; exact none members hm
  | [t] => rw [fold_of_singleton hm]; exact one members t hm
  | a :: b :: l =>
    have hne : members.toList ≠ [] := by simp [hm]
    have hitems := ih _ (TreeSet.height_items_lt hne) members.items rfl
    have htypes := fun key ↦ ih _ (TreeSet.height_typesAt_lt hne key) (members.typesAt key) rfl
    -- not both of two members are `undefined`
    have hdef : members.defined.toList ≠ [] := by
      obtain ⟨ha, hb, hab⟩ := Ordered.ne_of_toList_eq_cons_cons hm
      intro hnil
      have hall : ∀ t ∈ members, t = undefined := fun t ht ↦ by
        by_contra h
        exact absurd (TreeSet.mem_defined.2 ⟨ht, h⟩) (Ordered.toList_eq_nil_iff.1 hnil t)
      exact hab ((hall a ha).trans (hall b hb).symm)
    rw [fold_of_two hm]
    split
    · next h => exact arrays members hne h hitems
    split
    · next h => exact objects members hne h htypes
    split
    · next h =>
      refine optional members _ h.1 (fun e ↦ by cases e) ?_
      rw [← TreeSet.items_defined] at hitems ⊢
      exact arrays _ hdef (fun t ht ↦ h.2 t (TreeSet.mem_defined.1 ht).1
        (TreeSet.mem_defined.1 ht).2) hitems
    split
    · next h =>
      refine optional members _ h.1 (fun e ↦ by cases e) ?_
      rw [← foldObjects_defined]
      refine objects _ hdef (fun t ht ↦ h.2 t (TreeSet.mem_defined.1 ht).1
        (TreeSet.mem_defined.1 ht).2) fun key ↦ ?_
      rw [TreeSet.typesAt_defined]
      exact htypes key
    · exact mixed members hne

/-! ## Fields of a folded object -/

theorem lookup_map_keys {β : Type} (g : String → β) (l : List String) (key : String) :
    (l.map fun k ↦ (k, g k)).lookup key = if key ∈ l then some (g key) else .none := by
  induction l with
  | nil => rfl
  | cons k l ih =>
    rw [List.map_cons, List.lookup_cons, ih]
    by_cases h : key = k
    · simp [h]
    · simp [h, beq_false_of_ne h]

theorem mem_keys_iff {t : TypeTree} {key : String} :
    key ∈ t.keys ↔ ∃ p u, t.field? key = some (p, u) := by
  have hsome : key ∈ t.keys ↔ (t.field? key).isSome := by
    cases t with
    | object fields =>
      show key ∈ fields.map Prod.fst ↔ (fields.lookup key).isSome
      rw [List.lookup_isSome_iff, List.mem_map]
      exact exists_congr fun e ↦ and_congr_right fun _ ↦ by rw [beq_iff_eq, eq_comm]
    | _ => simp [keys, field?, fields?]
  rw [hsome, Option.isSome_iff_exists]
  refine ⟨?_, ?_⟩
  · rintro ⟨⟨p, u⟩, h⟩
    exact ⟨p, u, h⟩
  · rintro ⟨p, u, h⟩
    exact ⟨(p, u), h⟩

theorem field?_foldObjects (members : TreeSet) (key : String) :
    (foldObjects members).field? key =
      if key ∈ members.keys then some (members.presenceAt key, fold (members.typesAt key))
      else .none :=
  lookup_map_keys (fun k ↦ (members.presenceAt k, fold (members.typesAt k))) _ key

end TypeTree

end Silhouette
