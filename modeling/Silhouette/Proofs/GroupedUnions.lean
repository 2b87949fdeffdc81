import Silhouette.Proofs.Inference.Groupings

/-!
# Unions may be merged in any grouping

To merge types into a union is an operation on sets that does not depend on how they are grouped:
sets may be merged one by one, and the results merged in turn, with the same id in the end as if all
types had been merged at once (`Inference.unions_regroup`).

What comes out in between may be a single type, a union, or the empty union.  That none of the three
leaves a trace in the result is due to the form of the unions in the registry: they are flat, so the
members of a result are just the alternatives that went into it; and no union has a single member,
so a type that is left alone is not told apart from a union of it.
-/

set_option autoImplicit false

namespace Silhouette

namespace Inference

open Registry

variable {r : Registry}

/-- The registries that calls lead to and merges of known types in between, whether they succeed or
fail. -/
inductive Merged : Registry → Prop
  | start : Merged ∅
  | call {r : Registry} (h : Merged r) (c : Call) : Merged (c.answer.run r).2
  | merge {r : Registry} (h : Merged r) {members : TypeSet} (hM : ∀ m ∈ members, r.Knows m) :
      Merged ((mergeUnion members).run r).2

theorem Reached.merged (h : Reached r) : Merged r := by
  induction h with
  | start => exact .start
  | call _ c ih => exact .call ih c

namespace Merged

theorem wellFormed (h : Merged r) : r.WellFormed := by
  induction h with
  | start => exact wellFormed_empty
  | call _ c ih => exact (grows_answer ih c).2
  | merge _ hM ih => exact (mergeUnion_ensures_standsFor ih hM).wellFormed

theorem flatUnions (h : Merged r) : r.FlatUnions := by
  induction h with
  | start => exact flatUnions_empty
  | call h c ih => exact compositional_keeps_flatUnions.answer h.wellFormed c ih
  | merge h hM ih => exact compositional_keeps_flatUnions.mergeUnion h.wellFormed hM ih

end Merged

/-- A merge in groups that succeeds answers what one merge of all types answers. -/
theorem Merged.run_merge (hr : Merged r) (g : Grouping) (hM : ∀ m ∈ g.members, r.Knows m)
    (hno : NoClash (g.merge.run r).1) :
    ∃ id r', g.merge.run r = (.ok id, r') ∧ ((mergeUnion g.members).run r).1 = .ok id ∧
      (mergeUnion g.members).run r' = (.ok id, r') ∧ r'.StandsFor (r.flatten g.members) id := by
  have hmerge := g.merge_ensures hr.wellFormed hr.flatUnions hM (.refl r) hr.wellFormed
  obtain ⟨id, r', hrun, hg, hw, hid⟩ := hmerge.exists_ok_of_noClash hno
  refine ⟨id, r', hrun, run_mergeUnion_of_grows hr.wellFormed.toIndexed hw.toIndexed hg hid,
    run_mergeUnion_of_standsFor hw.toIndexed ?_, hid⟩
  rwa [flatten_grows hg hM]

/-- **Unions may be merged in any grouping.**  After any calls and merges, failed ones included:

* A type alone is merged to itself.
* If types are merged in groups, groups of groups and so on, and no digest clashes, the result is
  the id that one merge of all types answers, both in the registry from the start and in the one at
  the end, where it is registered already.  It is the only alternative, or else the union of just
  these: the types that are no unions, and the members of those that are.
* In particular, the sets of a family may be merged one by one. -/
theorem unions_regroup (hr : Merged r) :
    (∀ id, (mergeUnion (.ofList [id])).run r = (.ok id, r)) ∧
    (∀ g : Grouping, (∀ m ∈ g.members, r.Knows m) → NoClash (g.merge.run r).1 →
      ∃ id r' flat, g.merge.run r = (.ok id, r') ∧
        ((mergeUnion g.members).run r).1 = .ok id ∧
        (mergeUnion g.members).run r' = (.ok id, r') ∧
        (∀ c, c ∈ flat ↔ c ∈ g.members ∧ ¬ r.IsUnion c ∨
          ∃ m ∈ g.members, ∃ ms, r.describe? m = some (.union ms) ∧ c ∈ ms) ∧
        r'.StandsFor flat id) ∧
    ∀ family : List TypeSet, (∀ S ∈ family, ∀ m ∈ S, r.Knows m) →
      NoClash ((family.mapM mergeUnion >>= fun ids ↦ mergeUnion (.ofList ids)).run r).1 →
      ∃ id, ((family.mapM mergeUnion >>= fun ids ↦ mergeUnion (.ofList ids)).run r).1 = .ok id ∧
        ((mergeUnion (.ofList (family.flatMap Ordered.toList))).run r).1 = .ok id := by
  refine ⟨fun id ↦ run_mergeUnion_of_standsFor hr.wellFormed.toIndexed
    (hr.flatUnions.standsFor_self id), fun g hM hno ↦ ?_, fun family hM hno ↦ ?_⟩
  · obtain ⟨id, r', hrun, hall, hagain, hid⟩ := hr.run_merge g hM hno
    exact ⟨id, r', r.flatten g.members, hrun, hall, hagain, fun _ ↦ mem_flatten_iff, hid⟩
  · have hknown : ∀ m ∈ (Grouping.group (family.map .set)).members, r.Knows m := by
      intro m hm
      rw [Grouping.members_family, Ordered.mem_ofList, List.mem_flatMap] at hm
      obtain ⟨S, hS, hm⟩ := hm
      exact hM S hS m hm
    rw [← Grouping.merge_family] at hno ⊢
    obtain ⟨id, r', hrun, hall, -, -⟩ := hr.run_merge _ hknown hno
    rw [Grouping.members_family] at hall
    exact ⟨id, congrArg Prod.fst hrun, hall⟩

namespace Grouping.Example

/-- The union of some scalars. -/
def scalars (l : List Scalar) : Descriptor := .union (.ofList (l.map TypeId.scalar))

def two : TypeId := .node (scalars [.number, .string]).digest

def three : TypeId := .node (scalars [.number, .string, .boolean]).digest

/-- A registry with a union of two, from a call that failed half-way, and with a union of three,
from a merge. -/
def withUnions : Registry :=
  ((mergeUnion (.ofList [two, .scalar .boolean])).run
    ((Call.value 256 (.array [.array [.number (.whole 1), .string "a"],
      .object [("$undefined", .null)]])).answer.run ∅).2).2

/-- Sets that repeat their members, with an empty set and an empty group. -/
def nested : Grouping :=
  .group [.set (.ofList [two, .scalar .null]), .group [.set ∅, .group []],
    .group [.set (.ofList [three, two]), .set (.ofList [.scalar .null])]]

/-- A family of sets, one of which is empty. -/
def family : List TypeSet := [.ofList [two], ∅, .ofList [three, .scalar .number]]

end Grouping.Example

open Grouping.Example

/-- Unions are spliced at all levels, and what is merged in between is registered: in the example a
union of three, the empty union, and the union of four that comes out. -/
theorem unions_regroup_nested :
    ∃ id id' r, Merged withUnions ∧ withUnions.size = 3 ∧
      (mergeUnion (.ofList [two])).run withUnions = (.ok two, withUnions) ∧
      nested.merge.run withUnions = (.ok id, r) ∧ r.size = 6 ∧
      r.describe? id = some (scalars [.number, .string, .boolean, .null]) ∧
      ((mergeUnion (.ofList [two, .scalar .null, three])).run withUnions).1 = .ok id ∧
      ((family.mapM mergeUnion >>= fun ids ↦ mergeUnion (.ofList ids)).run withUnions).1 =
        .ok id' ∧
      ((mergeUnion (.ofList [two, three, .scalar .number])).run withUnions).1 = .ok id' := by
  have hmerged : Merged withUnions := .merge (Reached.call .start _).merged
    (knows_of_firstForeign?_eq_none (by decide +kernel))
  have hmembers : nested.members = .ofList [two, .scalar .null, three] := by decide +kernel
  have hall : Ordered.ofList (family.flatMap Ordered.toList) =
      (.ofList [two, three, .scalar .number] : TypeSet) := by decide +kernel
  have hknown : withUnions.firstForeign? nested.members = none := by decide +kernel
  have hknown' : ∀ S ∈ family, withUnions.firstForeign? S = none := by decide +kernel
  have hdescribed : (nested.merge.run withUnions).1.toOption.bind
      (nested.merge.run withUnions).2.describe? =
        some (scalars [.number, .string, .boolean, .null]) := by decide +kernel
  obtain ⟨id, r, hrun⟩ := exists_run_of_isOk
    (by decide +kernel : (nested.merge.run withUnions).1.isOk)
  obtain ⟨id', hrun'⟩ := exists_ok_of_isOk (by decide +kernel :
    ((family.mapM mergeUnion >>= fun ids ↦ mergeUnion (.ofList ids)).run withUnions).1.isOk)
  have hsize : (nested.merge.run withUnions).2.size = 6 := by decide +kernel
  obtain ⟨halone, hgroup, hsets⟩ := unions_regroup hmerged
  obtain ⟨_, _, _, hrun₁, honce, -⟩ := hgroup nested (knows_of_firstForeign?_eq_none hknown)
    (by rw [hrun]; rintro _ ⟨⟩)
  obtain ⟨_, hrun₂, honce'⟩ := hsets family
    (fun S hS ↦ knows_of_firstForeign?_eq_none (hknown' S hS)) (by rw [hrun']; rintro _ ⟨⟩)
  cases hrun.symm.trans hrun₁
  cases hrun'.symm.trans hrun₂
  rw [hrun] at hdescribed hsize
  exact ⟨id, id', r, hmerged, by decide +kernel, halone two, hrun, hsize, hdescribed,
    hmembers ▸ honce, hrun', hall ▸ honce'⟩

end Inference

end Silhouette
