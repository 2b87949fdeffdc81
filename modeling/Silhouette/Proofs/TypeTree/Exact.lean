import Mathlib.Data.Set.Lattice
import Silhouette.Proofs.Json.Distinct
import Silhouette.Proofs.TypeTree.OfJson

/-!
# Types that say no more than some values show

`TypeTree.Exact t V` says that everything in `t` is there because of a value in `V`: each
alternative of a union, each field, each optional mark, and the type without values only where there
are no values.

Two facts carry the proof that a fold is exact for all the values that its members are exact for
(`exact_fold`):

* a tree that is exact for several sets of values is exact for their union (`Exact.iUnion`) — which
  is what it takes when equal trees are counted once;
* the values of a tree can be dealt out to its alternatives (`Exact.exists_parts`) — which is what
  it takes when unions are made flat.
-/

set_option autoImplicit false

namespace Silhouette

namespace Json

/-- Everything that is an element of a list among some values. -/
def elements (V : Set Json) : Set Json := {v | ∃ items, .array items ∈ V ∧ v ∈ items}

/-- Everything that an object among some values has under a key. -/
def valuesAt (V : Set Json) (key : String) : Set Json :=
  {v | ∃ members, .object members ∈ V ∧ member? key members = some v}

/-- Some object among the values does not have a key. -/
def SomeLacks (V : Set Json) (key : String) : Prop :=
  ∃ members, .object members ∈ V ∧ member? key members = none

theorem elements_iUnion {ι : Type} (A : ι → Set Json) :
    elements (⋃ i, A i) = ⋃ i, elements (A i) := by
  ext v
  simp only [elements, Set.mem_iUnion, Set.mem_ofPred_eq]
  refine ⟨?_, ?_⟩
  · rintro ⟨items, ⟨i, hi⟩, hv⟩
    exact ⟨i, items, hi, hv⟩
  · rintro ⟨i, items, hi, hv⟩
    exact ⟨items, ⟨i, hi⟩, hv⟩

theorem valuesAt_iUnion {ι : Type} (A : ι → Set Json) (key : String) :
    valuesAt (⋃ i, A i) key = ⋃ i, valuesAt (A i) key := by
  ext v
  simp only [valuesAt, Set.mem_iUnion, Set.mem_ofPred_eq]
  refine ⟨?_, ?_⟩
  · rintro ⟨members, ⟨i, hi⟩, hv⟩
    exact ⟨i, members, hi, hv⟩
  · rintro ⟨i, members, hi, hv⟩
    exact ⟨members, ⟨i, hi⟩, hv⟩

theorem someLacks_iUnion {ι : Type} {A : ι → Set Json} {key : String} :
    SomeLacks (⋃ i, A i) key ↔ ∃ i, SomeLacks (A i) key := by
  simp only [SomeLacks, Set.mem_iUnion]
  refine ⟨?_, ?_⟩
  · rintro ⟨members, ⟨i, hi⟩, hv⟩
    exact ⟨i, members, hi, hv⟩
  · rintro ⟨i, members, hi, hv⟩
    exact ⟨members, ⟨i, hi⟩, hv⟩

theorem valuesAt_singleton (members : List (String × Json)) (key : String) :
    valuesAt {.object members} key = {v | member? key members = some v} := by
  ext v
  simp [valuesAt, eq_comm]

theorem someLacks_singleton {members : List (String × Json)} {key : String} :
    SomeLacks {.object members} key ↔ member? key members = none := by
  simp [SomeLacks]

end Json

namespace TypeTree

open Json

/-- Everything in a tree is there because of a value. -/
inductive Exact : TypeTree → Set Json → Prop
  | scalar {k : Scalar} {V : Set Json} (hne : V.Nonempty)
      (hkind : ∀ v ∈ V, Kind.ofValue v = .ok (.scalar k)) : Exact (.scalar k) V
  | array {item : TypeTree} {V : Set Json} (hne : V.Nonempty)
      (hkind : ∀ v ∈ V, Kind.ofValue v = .ok .array) (hitem : Exact item (elements V)) :
      Exact (.array item) V
  | object {fields : List (String × Presence × TypeTree)} {V : Set Json} (hne : V.Nonempty)
      (hkind : ∀ v ∈ V, Kind.ofValue v = .ok .object)
      (hkeys : ∀ key, (∃ p t, fields.lookup key = some (p, t)) ↔ (valuesAt V key).Nonempty)
      (hoptional : ∀ key p t, fields.lookup key = some (p, t) → (p = .optional ↔ SomeLacks V key))
      (htypes : ∀ key p t, fields.lookup key = some (p, t) → Exact t (valuesAt V key)) :
      Exact (.object fields) V
  | union {ts : List TypeTree} {V : Set Json} (part : TypeTree → Set Json)
      (hne : ∀ t ∈ ts, (part t).Nonempty) (hpart : ∀ t ∈ ts, Exact t (part t))
      (hV : ∀ v, v ∈ V ↔ ∃ t ∈ ts, v ∈ part t) : Exact (.union ts) V

section Inversion

variable {V : Set Json}

theorem exact_scalar_iff {k : Scalar} :
    (scalar k).Exact V ↔ V.Nonempty ∧ ∀ v ∈ V, Kind.ofValue v = .ok (.scalar k) :=
  ⟨fun h ↦ by cases h with | scalar hne hkind => exact ⟨hne, hkind⟩, fun h ↦ .scalar h.1 h.2⟩

theorem exact_array_iff {item : TypeTree} :
    (array item).Exact V ↔
      V.Nonempty ∧ (∀ v ∈ V, Kind.ofValue v = .ok .array) ∧ item.Exact (elements V) :=
  ⟨fun h ↦ by cases h with | array hne hkind hitem => exact ⟨hne, hkind, hitem⟩,
    fun h ↦ .array h.1 h.2.1 h.2.2⟩

theorem exact_object_iff {fields : List (String × Presence × TypeTree)} :
    (object fields).Exact V ↔
      V.Nonempty ∧ (∀ v ∈ V, Kind.ofValue v = .ok .object) ∧
        (∀ key, (∃ p t, fields.lookup key = some (p, t)) ↔ (valuesAt V key).Nonempty) ∧
        ∀ key p t, fields.lookup key = some (p, t) →
          (p = .optional ↔ SomeLacks V key) ∧ t.Exact (valuesAt V key) := by
  refine ⟨?_, ?_⟩
  · intro h
    cases h with
    | object hne hkind hkeys hoptional htypes =>
      exact ⟨hne, hkind, hkeys, fun key p t h ↦ ⟨hoptional key p t h, htypes key p t h⟩⟩
  · rintro ⟨hne, hkind, hkeys, hfields⟩
    exact .object hne hkind hkeys (fun key p t h ↦ (hfields key p t h).1)
      fun key p t h ↦ (hfields key p t h).2

theorem exact_union_iff {ts : List TypeTree} :
    (union ts).Exact V ↔ ∃ part : TypeTree → Set Json,
      (∀ t ∈ ts, (part t).Nonempty ∧ t.Exact (part t)) ∧ ∀ v, v ∈ V ↔ ∃ t ∈ ts, v ∈ part t := by
  refine ⟨?_, ?_⟩
  · intro h
    cases h with
    | union part hne hpart hV => exact ⟨part, fun t ht ↦ ⟨hne t ht, hpart t ht⟩, hV⟩
  · rintro ⟨part, hpart, hV⟩
    exact .union part (fun t ht ↦ (hpart t ht).1) (fun t ht ↦ (hpart t ht).2) hV

end Inversion

namespace Exact

variable {t : TypeTree} {V : Set Json}

/-! ## Several sets of values -/

theorem nonempty_iUnion {ι : Type} [Nonempty ι] {A : ι → Set Json} (h : ∀ i, (A i).Nonempty) :
    (⋃ i, A i).Nonempty :=
  Set.nonempty_iUnion.2 ⟨Classical.arbitrary ι, h _⟩

theorem forall_mem_iUnion {ι : Type} {A : ι → Set Json} {kind : Kind}
    (h : ∀ i, ∀ v ∈ A i, Kind.ofValue v = .ok kind) :
    ∀ v ∈ ⋃ i, A i, Kind.ofValue v = .ok kind := by
  intro v hv
  obtain ⟨i, hi⟩ := Set.mem_iUnion.1 hv
  exact h i v hi

/-- **Exact for each, exact for all together.** -/
theorem iUnion (h : t.Exact V) {ι : Type} [Nonempty ι] {A : ι → Set Json}
    (hA : ∀ i, t.Exact (A i)) : t.Exact (⋃ i, A i) := by
  induction h generalizing ι with
  | scalar =>
    simp only [exact_scalar_iff] at hA
    exact .scalar (nonempty_iUnion fun i ↦ (hA i).1) (forall_mem_iUnion fun i ↦ (hA i).2)
  | array _ _ _ ih =>
    simp only [exact_array_iff] at hA
    refine .array (nonempty_iUnion fun i ↦ (hA i).1) (forall_mem_iUnion fun i ↦ (hA i).2.1) ?_
    rw [elements_iUnion]
    exact ih fun i ↦ (hA i).2.2
  | object _ _ _ _ _ ih =>
    simp only [exact_object_iff] at hA
    refine .object (nonempty_iUnion fun i ↦ (hA i).1) (forall_mem_iUnion fun i ↦ (hA i).2.1)
      (fun key ↦ ?_) (fun key p t h ↦ ?_) fun key p t h ↦ ?_
    · rw [valuesAt_iUnion, Set.nonempty_iUnion]
      simp only [← (hA _).2.2.1 key, exists_const]
    · rw [someLacks_iUnion]
      simp only [← ((hA _).2.2.2 key p t h).1, exists_const]
    · rw [valuesAt_iUnion]
      exact ih key p t h fun i ↦ ((hA i).2.2.2 key p t h).2
  | union _ _ _ _ ih =>
    simp only [exact_union_iff] at hA
    choose part hpart hV using hA
    refine .union (fun t ↦ ⋃ i, part i t) (fun t ht ↦ ?_) (fun t ht ↦ ?_) fun v ↦ ?_
    · exact nonempty_iUnion fun i ↦ (hpart i t ht).1
    · exact ih t ht fun i ↦ (hpart i t ht).2
    · simp only [Set.mem_iUnion, hV]
      refine ⟨?_, ?_⟩
      · rintro ⟨i, t, ht, hv⟩
        exact ⟨t, ht, i, hv⟩
      · rintro ⟨t, ht, i, hv⟩
        exact ⟨i, t, ht, hv⟩

/-- The same for a family that is given by a condition. -/
theorem of_family {α : Type} {cond : α → Prop} (hne : ∃ a, cond a) {A : α → Set Json}
    (hA : ∀ a, cond a → t.Exact (A a)) : t.Exact {v | ∃ a, cond a ∧ v ∈ A a} := by
  obtain ⟨a, ha⟩ := hne
  have : Nonempty {a // cond a} := ⟨⟨a, ha⟩⟩
  have h := (hA a ha).iUnion fun i : {a // cond a} ↦ hA i.1 i.2
  have he : (⋃ i : {a // cond a}, A i.1) = {v | ∃ a, cond a ∧ v ∈ A a} := by
    ext v
    simp
  exact he ▸ h

/-! ## Unions -/

/-- **The values of a tree can be dealt out to its alternatives.** -/
theorem exists_parts (h : t.Exact V) : ∃ part : TypeTree → Set Json,
    (∀ a ∈ t.alternatives, (part a).Nonempty ∧ a.Exact (part a)) ∧
      ∀ v, v ∈ V ↔ ∃ a ∈ t.alternatives, v ∈ part a := by
  cases t with
  | union ts => exact exact_union_iff.1 h
  | scalar k => exact ⟨fun _ ↦ V, by simp [alternatives, h, (exact_scalar_iff.1 h).1]⟩
  | array item => exact ⟨fun _ ↦ V, by simp [alternatives, h, (exact_array_iff.1 h).1]⟩
  | object fields => exact ⟨fun _ ↦ V, by simp [alternatives, h, (exact_object_iff.1 h).1]⟩

end Exact

/-- All the values that are given to the trees of a set. -/
def cover (members : TreeSet) (V : TypeTree → Set Json) : Set Json := {v | ∃ t ∈ members, v ∈ V t}

variable {members : TreeSet} {V : TypeTree → Set Json}

theorem exact_join (hV : ∀ t ∈ members, t.Exact (V t)) :
    (join members).Exact (cover members V) := by
  have hparts : ∀ t, ∃ part : TypeTree → Set Json, t ∈ members →
      (∀ a ∈ t.alternatives, (part a).Nonempty ∧ a.Exact (part a)) ∧
        ∀ v, v ∈ V t ↔ ∃ a ∈ t.alternatives, v ∈ part a := by
    intro t
    by_cases ht : t ∈ members
    · obtain ⟨part, hpart⟩ := (hV t ht).exists_parts
      exact ⟨part, fun _ ↦ hpart⟩
    · exact ⟨fun _ ↦ ∅, fun h ↦ absurd h ht⟩
  choose part hpart using hparts
  -- an alternative gets what it gets from any of the trees that have it
  let whole : TypeTree → Set Json := fun a ↦
    {v | ∃ t, (t ∈ members ∧ a ∈ t.alternatives) ∧ v ∈ part t a}
  have hwhole : ∀ a ∈ members.alternatives, (whole a).Nonempty ∧ a.Exact (whole a) := by
    intro a ha
    obtain ⟨t, ht, hat⟩ := TreeSet.mem_alternatives.1 ha
    obtain ⟨v, hv⟩ := (((hpart t ht).1 a hat)).1
    exact ⟨⟨v, t, ⟨ht, hat⟩, hv⟩,
      .of_family ⟨t, ht, hat⟩ fun t ht ↦ ((hpart t ht.1).1 a ht.2).2⟩
  have hcover : ∀ v, v ∈ cover members V ↔ ∃ a ∈ members.alternatives, v ∈ whole a := by
    intro v
    refine ⟨?_, ?_⟩
    · rintro ⟨t, ht, hv⟩
      obtain ⟨a, ha, hv⟩ := ((hpart t ht).2 v).1 hv
      exact ⟨a, TreeSet.mem_alternatives.2 ⟨t, ht, ha⟩, t, ⟨ht, ha⟩, hv⟩
    · rintro ⟨a, -, t, ⟨ht, ha⟩, hv⟩
      exact ⟨t, ht, ((hpart t ht).2 v).2 ⟨a, ha, hv⟩⟩
  by_cases hone : ∃ only, members.alternatives.toList = [only]
  · obtain ⟨only, hone⟩ := hone
    have honly := Ordered.toList_eq_singleton_iff.1 hone
    have he : cover members V = whole only := by
      ext v
      simp [hcover, honly]
    rw [join_of_singleton hone, he]
    exact (hwhole only ((honly only).2 rfl)).2
  · rw [join_of_ne fun only honly ↦ hone ⟨only, honly⟩]
    exact exact_union_iff.2 ⟨whole, hwhole, hcover⟩

theorem exact_orUndefined {t : TypeTree} (ht : t ≠ undefined) {A B : Set Json} (hA : t.Exact A)
    (hB : undefined.Exact B) : (orUndefined t).Exact (A ∪ B) := by
  have h : (orUndefined t).Exact
      (cover (.ofList [t, undefined]) fun u ↦ if u = undefined then B else A) := by
    refine exact_join fun u hu ↦ ?_
    rw [Ordered.mem_ofList, List.mem_cons, List.mem_singleton] at hu
    rcases hu with rfl | rfl
    · rw [if_neg ht]
      exact hA
    · rw [if_pos rfl]
      exact hB
  have he : cover (.ofList [t, undefined]) (fun u ↦ if u = undefined then B else A) = A ∪ B := by
    ext v
    simp [cover, ht]
  exact he ▸ h

/-! ## Lists and objects -/

theorem cover_nonempty (hne : members.toList ≠ []) (hV : ∀ t ∈ members, (V t).Nonempty) :
    (cover members V).Nonempty := by
  obtain ⟨t, ht⟩ := List.exists_mem_of_ne_nil _ hne
  obtain ⟨v, hv⟩ := hV t ht
  exact ⟨v, t, ht, hv⟩

theorem elements_cover (harr : ∀ t ∈ members, t.isArray) :
    elements (cover members V) = cover members.items fun u ↦ elements (V (.array u)) := by
  ext v
  refine ⟨?_, ?_⟩
  · rintro ⟨items, ⟨t, ht, hitems⟩, hv⟩
    obtain ⟨u, rfl⟩ := isArray_iff.1 (harr t ht)
    exact ⟨u, TreeSet.mem_items.2 ht, items, hitems, hv⟩
  · rintro ⟨u, hu, items, hitems, hv⟩
    exact ⟨items, ⟨_, TreeSet.mem_items.1 hu, hitems⟩, hv⟩

theorem exact_foldArrays (hne : members.toList ≠ []) (harr : ∀ t ∈ members, t.isArray)
    (hfold : (∀ u ∈ members.items, u.Exact (elements (V (.array u)))) →
      (fold members.items).Exact (cover members.items fun u ↦ elements (V (.array u))))
    (hV : ∀ t ∈ members, t.Exact (V t)) :
    (array (fold members.items)).Exact (cover members V) := by
  have hinv : ∀ t ∈ members, (V t).Nonempty ∧ ∀ v ∈ V t, Kind.ofValue v = .ok .array := by
    intro t ht
    obtain ⟨u, rfl⟩ := isArray_iff.1 (harr t ht)
    obtain ⟨hne, hkind, -⟩ := exact_array_iff.1 (hV _ ht)
    exact ⟨hne, hkind⟩
  refine .array (cover_nonempty hne fun t ht ↦ (hinv t ht).1) ?_ ?_
  · rintro v ⟨t, ht, hv⟩
    exact (hinv t ht).2 v hv
  · rw [elements_cover harr]
    exact hfold fun u hu ↦ (exact_array_iff.1 (hV _ (TreeSet.mem_items.1 hu))).2.2

/-- What the objects of a set have under a key, by the types they have there. -/
def valuesOfType (members : TreeSet) (V : TypeTree → Set Json) (key : String) (u : TypeTree) :
    Set Json :=
  {v | ∃ t, (t ∈ members ∧ ∃ p, t.field? key = some (p, u)) ∧ v ∈ valuesAt (V t) key}

section Objects

variable (hobj : ∀ t ∈ members, t.isObject) (hV : ∀ t ∈ members, t.Exact (V t))
include hobj hV

/-- What it means for an object among the trees to be exact. -/
theorem exact_member_object {t : TypeTree} (ht : t ∈ members) :
    ((V t).Nonempty ∧ ∀ v ∈ V t, Kind.ofValue v = .ok .object) ∧
      (∀ key, key ∈ t.keys ↔ (valuesAt (V t) key).Nonempty) ∧
      ∀ key p u, t.field? key = some (p, u) →
        (p = .optional ↔ SomeLacks (V t) key) ∧ u.Exact (valuesAt (V t) key) := by
  obtain ⟨fields, rfl⟩ := isObject_iff.1 (hobj t ht)
  obtain ⟨hne, hkind, hkeys, hfields⟩ := exact_object_iff.1 (hV _ ht)
  exact ⟨⟨hne, hkind⟩, fun key ↦ mem_keys_iff.trans (hkeys key), hfields⟩

theorem mem_keys_iff_nonempty {key : String} :
    key ∈ members.keys ↔ (valuesAt (cover members V) key).Nonempty := by
  rw [TreeSet.mem_keys]
  refine ⟨?_, ?_⟩
  · rintro ⟨t, ht, hk⟩
    obtain ⟨v, ms, hms, hv⟩ := ((exact_member_object hobj hV ht).2.1 key).1 hk
    exact ⟨v, ms, ⟨t, ht, hms⟩, hv⟩
  · rintro ⟨v, ms, ⟨t, ht, hms⟩, hv⟩
    exact ⟨t, ht, ((exact_member_object hobj hV ht).2.1 key).2 ⟨v, ms, hms, hv⟩⟩

/-- A field is optional exactly if some object does without it. -/
theorem presenceAt_eq_optional_iff {key : String} :
    members.presenceAt key = .optional ↔ SomeLacks (cover members V) key := by
  have hopt : members.presenceAt key = .optional ↔ ¬ members.presenceAt key = .required := by
    cases members.presenceAt key <;> decide
  rw [hopt, TreeSet.presenceAt_eq_required_iff]
  refine ⟨?_, ?_⟩
  · intro h
    push Not at h
    obtain ⟨t, ht, -, hno⟩ := h
    obtain ⟨⟨hne, hkind⟩, hkeys, hfields⟩ := exact_member_object hobj hV ht
    suffices hlack : SomeLacks (V t) key by
      obtain ⟨ms, hms, hnone⟩ := hlack
      exact ⟨ms, ⟨t, ht, hms⟩, hnone⟩
    cases hf : t.field? key with
    | some f =>
      obtain ⟨p, u⟩ := f
      refine (hfields key p u hf).1.1 ?_
      cases p with
      | required => exact absurd hf (hno u)
      | optional => rfl
    | none =>
      -- no object of this tree has the key, and there is one
      obtain ⟨v, hv⟩ := hne
      cases v with
      | object ms =>
        refine ⟨ms, hv, ?_⟩
        cases hm : member? key ms with
        | none => rfl
        | some w =>
          obtain ⟨p, u, hpu⟩ := mem_keys_iff.1 ((hkeys key).2 ⟨w, ms, hv, hm⟩)
          rw [hf] at hpu
          cases hpu
      | _ => cases hkind _ hv
  · rintro ⟨ms, ⟨t, ht, hms⟩, hnone⟩ hall
    obtain ⟨u, hu⟩ := hall t ht (hobj t ht)
    have h := ((exact_member_object hobj hV ht).2.2 key _ u hu).1.2 ⟨ms, hms, hnone⟩
    cases h

theorem exact_valuesOfType {key : String} {u : TypeTree} (hu : u ∈ members.typesAt key) :
    u.Exact (valuesOfType members V key u) := by
  obtain ⟨t, ht, hf⟩ := TreeSet.mem_typesAt.1 hu
  refine .of_family ⟨t, ht, hf⟩ fun t ⟨ht, p, hf⟩ ↦ ?_
  exact ((exact_member_object hobj hV ht).2.2 key p u hf).2

theorem valuesAt_cover (key : String) :
    valuesAt (cover members V) key =
      cover (members.typesAt key) (valuesOfType members V key) := by
  ext v
  refine ⟨?_, ?_⟩
  · rintro ⟨ms, ⟨t, ht, hms⟩, hv⟩
    have hk := ((exact_member_object hobj hV ht).2.1 key).2 ⟨v, ms, hms, hv⟩
    obtain ⟨p, u, hu⟩ := mem_keys_iff.1 hk
    exact ⟨u, TreeSet.mem_typesAt.2 ⟨t, ht, p, hu⟩, t, ⟨ht, p, hu⟩, ms, hms, hv⟩
  · rintro ⟨u, -, t, ⟨ht, -⟩, ms, hms, hv⟩
    exact ⟨ms, ⟨t, ht, hms⟩, hv⟩

theorem exact_foldObjects (hne : members.toList ≠ [])
    (hfold : ∀ key, (∀ u ∈ members.typesAt key, u.Exact (valuesOfType members V key u)) →
      (fold (members.typesAt key)).Exact
        (cover (members.typesAt key) (valuesOfType members V key))) :
    (foldObjects members).Exact (cover members V) := by
  have hfield := field?_foldObjects members
  have hmem : ∀ {key p t}, (foldObjects members).field? key = some (p, t) →
      key ∈ members.keys ∧ p = members.presenceAt key ∧ t = fold (members.typesAt key) := by
    intro key p t h
    rw [hfield] at h
    split at h
    · next hk =>
      cases h
      exact ⟨hk, rfl, rfl⟩
    · cases h
  refine .object (cover_nonempty hne fun t ht ↦ (exact_member_object hobj hV ht).1.1) ?_
    (fun key ↦ ?_) (fun key p t h ↦ ?_) fun key p t h ↦ ?_
  · rintro v ⟨t, ht, hv⟩
    exact (exact_member_object hobj hV ht).1.2 v hv
  · rw [← mem_keys_iff_nonempty hobj hV]
    exact ⟨fun ⟨p, t, h⟩ ↦ (hmem h).1, fun hk ↦ ⟨_, _, (hfield key).trans (if_pos hk)⟩⟩
  · obtain ⟨-, rfl, -⟩ := hmem h
    exact presenceAt_eq_optional_iff hobj hV
  · obtain ⟨-, -, rfl⟩ := hmem h
    rw [valuesAt_cover hobj hV]
    exact hfold key fun u hu ↦ exact_valuesOfType hobj hV hu

end Objects

/-! ## The rules -/

/-- **A fold is exact for everything that its members are exact for.** -/
theorem exact_fold (members : TreeSet) {V : TypeTree → Set Json}
    (hV : ∀ t ∈ members, t.Exact (V t)) : (fold members).Exact (cover members V) := by
  revert V
  refine fold_induction (P := fun members u ↦ ∀ {V : TypeTree → Set Json},
    (∀ t ∈ members, t.Exact (V t)) → u.Exact (cover members V))
    ?none ?one ?arrays ?objects ?optional ?mixed members
  case none =>
    intro members hnil V _
    refine exact_union_iff.2 ⟨V, by simp, fun v ↦ ?_⟩
    rw [← hnil]
    rfl
  case one =>
    intro members only hone V hV
    have honly := Ordered.toList_eq_singleton_iff.1 hone
    have he : cover members V = V only := by
      ext v
      simp [cover, honly]
    rw [he]
    exact hV only ((honly only).2 rfl)
  case arrays =>
    intro members hne harr ih V hV
    exact exact_foldArrays hne harr (fun h ↦ ih h) hV
  case objects =>
    intro members hne hobj ih V hV
    exact exact_foldObjects hobj hV hne fun key h ↦ ih key h
  case optional =>
    intro members t hundef ht ih V hV
    have he : cover members V = cover members.defined V ∪ V undefined := by
      ext v
      refine ⟨?_, ?_⟩
      · rintro ⟨u, hu, hv⟩
        by_cases hd : u = undefined
        · exact .inr (hd ▸ hv)
        · exact .inl ⟨u, TreeSet.mem_defined.2 ⟨hu, hd⟩, hv⟩
      · rintro (⟨u, hu, hv⟩ | hv)
        · exact ⟨u, (TreeSet.mem_defined.1 hu).1, hv⟩
        · exact ⟨undefined, hundef, hv⟩
    rw [he]
    exact exact_orUndefined ht (ih fun u hu ↦ hV u (TreeSet.mem_defined.1 hu).1)
      (hV undefined hundef)
  case mixed =>
    intro members _ V hV
    exact exact_join hV

/-! ## The type of a value -/

/-- The fold of the types of some values is exact for them. -/
theorem exact_fold_of_ofItems? {vs : List Json} {ts : List TypeTree} (hts : ofItems? vs = some ts)
    (h : ∀ v ∈ vs, ∀ t, ofJson? v = some t → t.Exact {v}) :
    (fold (.ofList ts)).Exact {v | v ∈ vs} := by
  have hV : ∀ t ∈ (.ofList ts : TreeSet), t.Exact {v | ∃ w, (w ∈ vs ∧ ofJson? w = some t) ∧
      v ∈ ({w} : Set Json)} := by
    intro t ht
    obtain ⟨v, hv, hvt⟩ := (mem_of_ofItems? hts t).1 (Ordered.mem_ofList.1 ht)
    exact .of_family ⟨v, hv, hvt⟩ fun w hw ↦ h w hw.1 t hw.2
  have he : cover (.ofList ts) (fun t ↦ {v | ∃ w, (w ∈ vs ∧ ofJson? w = some t) ∧
      v ∈ ({w} : Set Json)}) = {v | v ∈ vs} := by
    ext v
    refine ⟨?_, ?_⟩
    · rintro ⟨t, -, w, ⟨hw, -⟩, rfl⟩
      exact hw
    · intro hv
      obtain ⟨t, ht, hvt⟩ := exists_ofJson?_of_mem hts hv
      exact ⟨t, Ordered.mem_ofList.2 ht, v, ⟨hv, hvt⟩, rfl⟩
  exact he ▸ exact_fold _ hV

theorem exact_singleton_object {members : List (String × Json)}
    {fs : List (String × Presence × TypeTree)} (hfs : ofEntries? members = some fs)
    (hn : (members.map Prod.fst).Nodup) (hkind : Kind.ofValue (.object members) = .ok .object)
    (h : ∀ m ∈ members, ∀ t, ofJson? m.2 = some t → t.Exact {m.2}) :
    (ofFields (.ofList fs)).Exact {.object members} := by
  have hfield := @field?_ofEntries? members fs hfs hn
  refine .object (Set.singleton_nonempty _) ?_ (fun key ↦ ?_) (fun key p t ht ↦ ?_)
    fun key p t ht ↦ ?_
  · rintro v rfl
    exact hkind
  · rw [valuesAt_singleton]
    refine ⟨?_, ?_⟩
    · rintro ⟨p, t, ht⟩
      obtain ⟨-, v, hv, -⟩ := hfield.1 ht
      exact ⟨v, hv⟩
    · rintro ⟨v, hv⟩
      obtain ⟨t, ht⟩ := exists_ofJson?_of_mem_members hfs (mem_of_lookup_eq_some hv)
      exact ⟨.required, t, hfield.2 ⟨rfl, v, hv, ht⟩⟩
  · obtain ⟨rfl, v, hv, -⟩ := hfield.1 ht
    rw [someLacks_singleton, hv]
    exact iff_of_false (by decide) (by simp)
  · obtain ⟨-, v, hv, hvt⟩ := hfield.1 ht
    rw [valuesAt_singleton, hv]
    have he : {w | some v = some w} = {v} := by
      ext w
      simp [eq_comm]
    exact he ▸ h (key, v) (mem_of_lookup_eq_some hv) t hvt

/-- **The type of a value is exact for it.** -/
theorem exact_ofJson {v : Json} (hd : v.Distinct) {t : TypeTree} (h : ofJson? v = some t) :
    t.Exact {v} := by
  have hscalar : ∀ {v : Json} {k : Scalar}, Kind.ofValue v = .ok (.scalar k) →
      (scalar k).Exact {v} := by
    intro v k hk
    refine .scalar (Set.singleton_nonempty v) ?_
    rintro w rfl
    exact hk
  induction hd generalizing t with
  | null => cases h; exact hscalar rfl
  | bool b => cases h; exact hscalar rfl
  | number n => cases h; exact hscalar rfl
  | string s => cases h; exact hscalar rfl
  | @array items hitems ih =>
    obtain ⟨ts, hts, rfl⟩ := Option.map_eq_some_iff.1 h
    have he : elements {Json.array items} = {v | v ∈ items} := by
      ext v
      simp [elements]
    refine .array (Set.singleton_nonempty _) ?_ (he ▸ exact_fold_of_ofItems? hts ih)
    rintro w rfl
    rfl
  | @object members hn hmembers ih =>
    obtain ⟨k, hk, rfl⟩ | ⟨items, ts, he, -⟩ | ⟨members', fs, he, hkind, hfs, rfl⟩ :=
      ofJson?_cases h
    · exact hscalar hk
    · cases he
    · cases he
      exact exact_singleton_object hfs hn hkind ih

end TypeTree

end Silhouette
