import Silhouette.Proofs.Inference.Flattening

/-!
# Merging in groups

`Inference.Grouping` puts sets of types into groups, groups into groups, and so on; a set may occur
several times, and sets and groups may be empty.  `Grouping.merge` merges each of the sets, then the
results for each group, up to the one result for all.

Whatever comes out in between, the result stands for the flattened members of all sets
(`Grouping.merge_ensures`).  A result in between is a type that was there before, an empty union or
a new one; all of these have just the alternatives that they stand for, because these were flattened
before and do not change while the registry grows.
-/

set_option autoImplicit false

namespace Silhouette

namespace Inference

open Registry

/-- Sets of types in groups, groups in groups, and so on. -/
inductive Grouping where
  | set (members : TypeSet)
  | group (parts : List Grouping)

namespace Grouping

mutual

/-- The types in all the sets. -/
def members : Grouping → TypeSet
  | .set members => members
  | .group parts => .ofList (membersOfEach parts)

def membersOfEach : List Grouping → List TypeId
  | [] => []
  | g :: rest => g.members.toList ++ membersOfEach rest

end

mutual

/-- Merge each set, then the results for each group. -/
def merge : Grouping → Inference TypeId
  | .set members => mergeUnion members
  | .group parts => do mergeUnion (.ofList (← mergeEach parts))

def mergeEach : List Grouping → Inference (List TypeId)
  | [] => return []
  | g :: rest => return (← g.merge) :: (← mergeEach rest)

end

theorem mem_membersOfEach {parts : List Grouping} {m : TypeId} :
    m ∈ membersOfEach parts ↔ ∃ g ∈ parts, m ∈ g.members := by
  induction parts with
  | nil => simp [membersOfEach]
  | cons g parts ih => simp [membersOfEach, ih, Ordered.mem_def]

theorem mem_members_group {parts : List Grouping} {m : TypeId} :
    m ∈ (group parts).members ↔ ∃ g ∈ parts, m ∈ g.members := by
  rw [members, Ordered.mem_ofList, mem_membersOfEach]

theorem mem_flatten_group {r : Registry} {parts : List Grouping} {c : TypeId} :
    c ∈ r.flatten (group parts).members ↔ ∃ g ∈ parts, c ∈ r.flatten g.members := by
  simp only [mem_flatten, mem_members_group]
  exact ⟨fun ⟨m, ⟨g, hg, hm⟩, hc⟩ ↦ ⟨g, hg, m, hm, hc⟩,
    fun ⟨g, hg, m, hm, hc⟩ ↦ ⟨m, ⟨g, hg, hm⟩, hc⟩⟩

/-! ## Families of sets -/

theorem mergeEach_map_set (family : List TypeSet) :
    mergeEach (family.map set) = family.mapM mergeUnion := by
  induction family with
  | nil => rw [List.map_nil, mergeEach, List.mapM_nil]
  | cons S family ih => rw [List.map_cons, mergeEach, merge, ih, List.mapM_cons]

/-- The results for the sets of a family, merged. -/
theorem merge_family (family : List TypeSet) :
    (group (family.map set)).merge =
      family.mapM mergeUnion >>= fun ids ↦ mergeUnion (.ofList ids) := by
  rw [merge, mergeEach_map_set]

theorem members_family (family : List TypeSet) :
    (group (family.map set)).members = .ofList (family.flatMap Ordered.toList) := by
  refine Ordered.ext_mem fun m ↦ ?_
  rw [mem_members_group, Ordered.mem_ofList, List.mem_flatMap]
  simp [members, Ordered.mem_def]

/-! ## The result -/

variable {r : Registry}

/-- The results of the parts are flattened to what all parts are flattened to. -/
theorem flatten_results {r' : Registry} (hr : r.WellFormed) (hflat : r.FlatUnions)
    (hg : r.Grows r') {parts : List Grouping} (hM : ∀ m ∈ (group parts).members, r.Knows m)
    {ids : List TypeId}
    (hids : List.Forall₂ (fun g id ↦ r'.StandsFor (r.flatten g.members) id) parts ids) :
    r'.flatten (.ofList ids) = r.flatten (group parts).members := by
  have hno : ∀ flat ∈ parts.map fun g ↦ r.flatten g.members, ∀ c ∈ flat, ¬ r'.IsUnion c := by
    intro flat hmem c hc
    obtain ⟨g, hgp, rfl⟩ := List.mem_map.1 hmem
    obtain ⟨m, hm, halt⟩ := mem_flatten.1 hc
    have hknown := hr.knows_alternative (hM m (mem_members_group.2 ⟨g, hgp, hm⟩)) halt
    rw [hg.isUnion_iff hknown]
    exact hflat.not_isUnion_alternative halt
  refine Ordered.ext_mem fun c ↦ ?_
  rw [mem_flatten_of_standsFor (List.forall₂_map_left_iff.2 hids) hno, mem_flatten_group]
  simp

mutual

/-- **The result stands for the flattened members of all sets.** -/
theorem merge_ensures (hr : r.WellFormed) (hflat : r.FlatUnions) : ∀ (g : Grouping)
    {r' : Registry}, (∀ m ∈ g.members, r.Knows m) → r.Grows r' → r'.WellFormed →
    g.merge.Ensures r' (fun r'' id ↦ r''.StandsFor (r.flatten g.members) id)
      InferenceError.IsClash
  | .set S, r', hM, hg, hw => by
    rw [members] at hM ⊢
    rw [← flatten_grows hg hM]
    exact mergeUnion_ensures_standsFor hw fun m hm ↦ hg.knows (hM m hm)
  | .group parts, r', hM, hg, hw => by
    have hpart : ∀ g ∈ parts, ∀ m ∈ g.members, r.Knows m := fun g hgp m hm ↦
      hM m (mem_members_group.2 ⟨g, hgp, hm⟩)
    refine .bind (mergeEach_ensures hr hflat parts hpart hg hw) fun ids r'' hg' hw' hids ↦ ?_
    rw [← flatten_results hr hflat (hg.trans hg') hM hids]
    refine mergeUnion_ensures_standsFor hw' fun id hid ↦ ?_
    obtain ⟨g, hgp, hid⟩ := exists_mem_of_forall₂ hids id (Ordered.mem_ofList.1 hid)
    exact hid.knows fun c hc ↦
      (hg.trans hg').knows (hr.knows_of_mem_flatten (hpart g hgp) hc)

theorem mergeEach_ensures (hr : r.WellFormed) (hflat : r.FlatUnions) : ∀ (parts : List Grouping)
    {r' : Registry}, (∀ g ∈ parts, ∀ m ∈ g.members, r.Knows m) → r.Grows r' → r'.WellFormed →
    (mergeEach parts).Ensures r'
      (fun r'' ids ↦ List.Forall₂ (fun g id ↦ r''.StandsFor (r.flatten g.members) id) parts ids)
      InferenceError.IsClash
  | [], r', _, _, hw => .pure hw .nil
  | g :: rest, r', hM, hg, hw => by
    refine .bind (merge_ensures hr hflat g (hM g List.mem_cons_self) hg hw)
      fun id r₁ hg₁ hw₁ hid ↦ ?_
    refine .bind (mergeEach_ensures hr hflat rest (fun g hg ↦ hM g (List.mem_cons_of_mem _ hg))
      (hg.trans hg₁) hw₁) fun ids r₂ hg₂ hw₂ hids ↦ ?_
    exact .pure hw₂ (.cons (hid.grows hg₂) hids)

end

end Grouping

end Inference

end Silhouette
