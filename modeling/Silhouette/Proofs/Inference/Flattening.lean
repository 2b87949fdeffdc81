import Silhouette.Proofs.Inference.FlatUnions

/-!
# What a union is made of

`Registry.flatten` puts the members of every union in a set of types in the place of the union, and
`Registry.StandsFor` says that an id is the type for a set of alternatives: the only one of them, or
the union of all.  `Inference.mergeUnion` answers the id that stands for its flattened members
(`mergeUnion_ensures_standsFor`).

Such an id says what the alternatives are: they are its own (`StandsFor.mem_alternatives`).  So ids
for some sets of alternatives are flattened to all of them (`mem_flatten_of_standsFor`).  And the id
stays when the registry grows, so a merge whose result is known from later on cannot fail and has
that result (`run_mergeUnion_of_grows`).
-/

set_option autoImplicit false

namespace Silhouette

namespace Registry

variable {r r' : Registry} {members flat : TypeSet} {id id' c : TypeId}

/-! ## Flattening -/

/-- The types with the members of every union in the place of the union. -/
def flatten (r : Registry) (members : TypeSet) : TypeSet :=
  .ofList (members.toList.flatMap r.alternatives)

theorem mem_flatten : c ∈ r.flatten members ↔ ∃ m ∈ members, c ∈ r.alternatives m := by
  rw [flatten, Ordered.mem_ofList, List.mem_flatMap]
  rfl

theorem mem_alternatives_of_union {ms : TypeSet} (h : r.describe? id = some (.union ms)) :
    c ∈ r.alternatives id ↔ c ∈ ms := by
  rw [alternatives, h]
  rfl

theorem mem_alternatives_of_not_isUnion (h : ¬ r.IsUnion id) : c ∈ r.alternatives id ↔ c = id := by
  rw [alternatives]
  split
  · next ms hms => exact absurd ⟨ms, hms⟩ h
  · exact List.mem_singleton

/-- The alternatives of a union are its members, and a type that is no union is its own one. -/
theorem mem_alternatives_iff : c ∈ r.alternatives id ↔
    c = id ∧ ¬ r.IsUnion id ∨ ∃ ms, r.describe? id = some (.union ms) ∧ c ∈ ms := by
  by_cases hunion : r.IsUnion id
  · obtain ⟨ms, hms⟩ := hunion
    simp [mem_alternatives_of_union hms, IsUnion, hms]
  · have hnone : ¬ ∃ ms, r.describe? id = some (.union ms) ∧ c ∈ ms := by
      rintro ⟨ms, hms, -⟩
      exact hunion ⟨ms, hms⟩
    rw [mem_alternatives_of_not_isUnion hunion, or_iff_left hnone, and_iff_left hunion]

/-- A flattened set has the types that are no unions and the members of those that are. -/
theorem mem_flatten_iff : c ∈ r.flatten members ↔ c ∈ members ∧ ¬ r.IsUnion c ∨
    ∃ m ∈ members, ∃ ms, r.describe? m = some (.union ms) ∧ c ∈ ms := by
  simp only [mem_flatten, mem_alternatives_iff, and_or_left, exists_or]
  refine or_congr_left ⟨?_, fun ⟨hm, hno⟩ ↦ ⟨c, hm, rfl, hno⟩⟩
  rintro ⟨m, hm, rfl, hno⟩
  exact ⟨hm, hno⟩

theorem flatten_grows (hg : r.Grows r') (hM : ∀ m ∈ members, r.Knows m) :
    r'.flatten members = r.flatten members := by
  rw [flatten, flatten, List.flatMap_congr fun m hm ↦ hg.alternatives (hM m hm)]

theorem WellFormed.knows_of_mem_flatten (hr : r.WellFormed) (hM : ∀ m ∈ members, r.Knows m)
    (hc : c ∈ r.flatten members) : r.Knows c := by
  obtain ⟨m, hm, hc⟩ := mem_flatten.1 hc
  exact hr.knows_alternative (hM m hm) hc

/-! ## The id for some alternatives -/

/-- The id is the only one of the alternatives, or the union of them. -/
inductive StandsFor (r : Registry) (flat : TypeSet) (id : TypeId) : Prop
  | only (h : flat.toList = [id])
  | union (hne : ∀ only, flat.toList ≠ [only]) (hd : r.describe? id = some (.union flat))

namespace StandsFor

theorem knows (h : r.StandsFor flat id) (hflat : ∀ c ∈ flat, r.Knows c) : r.Knows id := by
  cases h with
  | only h => exact hflat id ((Ordered.toList_eq_singleton_iff.1 h id).2 rfl)
  | union _ hd =>
    obtain ⟨n, rfl, hn⟩ := describe?_eq_some_iff.1 hd
    exact ⟨_, hn⟩

theorem grows (h : r.StandsFor flat id) (hg : r.Grows r') : r'.StandsFor flat id := by
  cases h with
  | only h => exact .only h
  | union hne hd =>
    obtain ⟨n, rfl, hn⟩ := describe?_eq_some_iff.1 hd
    exact .union hne (describe?_eq_some_iff.2 ⟨n, rfl, hg.get? hn⟩)

/-- The id has the alternatives that it stands for, if none of them is a union. -/
theorem mem_alternatives (h : r.StandsFor flat id) (hflat : ∀ c ∈ flat, ¬ r.IsUnion c) :
    c ∈ r.alternatives id ↔ c ∈ flat := by
  cases h with
  | only h =>
    have hmem := Ordered.toList_eq_singleton_iff.1 h
    rw [mem_alternatives_of_not_isUnion (hflat id ((hmem id).2 rfl)), hmem]
  | union _ hd => exact mem_alternatives_of_union hd

end StandsFor

/-- Ids for some sets of alternatives are flattened to all of these, if none of them is a union. -/
theorem mem_flatten_of_standsFor {flats : List TypeSet} {ids : List TypeId}
    (h : List.Forall₂ r.StandsFor flats ids) (hno : ∀ flat ∈ flats, ∀ c ∈ flat, ¬ r.IsUnion c) :
    c ∈ r.flatten (.ofList ids) ↔ ∃ flat ∈ flats, c ∈ flat := by
  simp only [mem_flatten, Ordered.mem_ofList]
  induction h with
  | nil => simp
  | cons hid _ ih =>
    simp only [List.mem_cons, exists_eq_or_imp]
    rw [hid.mem_alternatives (hno _ List.mem_cons_self),
      ih fun flat hflat ↦ hno flat (List.mem_cons_of_mem _ hflat)]

/-- A type alone stands for its alternatives. -/
theorem FlatUnions.standsFor_self (h : r.FlatUnions) (id : TypeId) :
    r.StandsFor (r.flatten (.ofList [id])) id := by
  have hmem : ∀ c, c ∈ r.flatten (.ofList [id]) ↔ c ∈ r.alternatives id := fun c ↦ by
    simp [mem_flatten]
  by_cases hunion : r.IsUnion id
  · obtain ⟨ms, hms⟩ := hunion
    obtain ⟨n, rfl, hn⟩ := describe?_eq_some_iff.1 hms
    have hflat : r.flatten (.ofList [.node n]) = ms :=
      Ordered.ext_mem fun c ↦ (hmem c).trans (mem_alternatives_of_union hms)
    rw [hflat]
    refine .union (fun only honly ↦ ?_) hms
    -- no registered union has a single member
    have hsize := (h n ms hn).1
    rw [Ordered.size, honly] at hsize
    simp at hsize
  · exact .only (Ordered.toList_eq_singleton_iff.2 fun c ↦
      (hmem c).trans (mem_alternatives_of_not_isUnion hunion))

end Registry

namespace Inference

open Registry

variable {r r' : Registry} {members : TypeSet} {id : TypeId}

theorem run_mergeUnion (members : TypeSet) (r : Registry) :
    (mergeUnion members).run r =
      match (r.flatten members).toList with
      | [only] => (.ok only, r)
      | _ => (intern (.union (r.flatten members))).run r := by
  rw [mergeUnion, run_get_bind]
  show ExceptT.run (match (r.flatten members).toList with
    | [only] => pure only
    | _ => intern (.union (r.flatten members))) r = _
  split <;> rfl

/-- **A merge answers the id that stands for its flattened members.** -/
theorem mergeUnion_ensures_standsFor (hr : r.WellFormed) (hM : ∀ m ∈ members, r.Knows m) :
    (mergeUnion members).Ensures r (fun r' id ↦ r'.StandsFor (r.flatten members) id)
      InferenceError.IsClash := by
  refine .get_bind ?_
  show Ensures (match (r.flatten members).toList with
    | [only] => pure only
    | _ => intern (.union (r.flatten members))) r _ _
  split
  · next only honly => exact .pure hr (.only honly)
  · next hne =>
    refine (Ensures.intern_describes hr (d := .union (r.flatten members)) fun c hc ↦
      hr.knows_of_mem_flatten hM hc).imp ?_ fun _ h ↦ h
    exact fun id r' _ _ hd ↦ .union hne hd

/-- A merge whose result is there finds it. -/
theorem run_mergeUnion_of_standsFor (hr : r.Indexed) (h : r.StandsFor (r.flatten members) id) :
    (mergeUnion members).run r = (.ok id, r) := by
  rw [run_mergeUnion]
  cases h with
  | only h => rw [h]
  | union hne hd =>
    obtain ⟨n, rfl, hn⟩ := describe?_eq_some_iff.1 hd
    obtain rfl := hr.digest_of_get? hn
    split
    · next only honly => exact absurd honly (hne only)
    · exact Ensures.run_intern_of_get? hr hn

/-- A merge has the result that it would have in a later registry. -/
theorem run_mergeUnion_of_grows (hr : r.Indexed) (hr' : r'.Indexed) (hg : r.Grows r')
    (h : r'.StandsFor (r.flatten members) id) : ((mergeUnion members).run r).1 = .ok id := by
  rw [run_mergeUnion]
  cases h with
  | only h => rw [h]
  | union hne hd =>
    obtain ⟨n, rfl, hn⟩ := describe?_eq_some_iff.1 hd
    obtain rfl := hr'.digest_of_get? hn
    split
    · next only honly => exact absurd honly (hne only)
    · exact Ensures.run_intern_of_grows hr hg hn

end Inference

end Silhouette
