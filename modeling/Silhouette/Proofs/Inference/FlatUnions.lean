import Silhouette.Proofs.Inference.Compositional
import Silhouette.Proofs.Inference.Keeps

/-!
# Unions stay flat

`Registry.FlatUnions` says that every registered union has no members or several, and that none of
them is a union.  Unions are built by `Inference.mergeUnion` only, which puts the members of a union
in its place.  This goes one level deep, so a new union is flat because all earlier ones are; and it
stays flat because its members are registered already when it is built, so that none of them can
become a union later (`FlatUnions.enter`).

From there the invariant follows the text of the inference (`compositional_keeps_flatUnions`), up to
any number of calls (`Reached.flatUnions`).
-/

set_option autoImplicit false

namespace Silhouette

namespace Registry

/-- An id refers to a union. -/
def IsUnion (r : Registry) (id : TypeId) : Prop := ∃ members, r.describe? id = some (.union members)

/-- Every union has no members or several, and none that is a union. -/
def FlatUnions (r : Registry) : Prop :=
  ∀ (id : NodeId) (members : TypeSet), r.get? id = some (.union members) →
    (members.size = 0 ∨ 2 ≤ members.size) ∧ ∀ m ∈ members, ¬ r.IsUnion m

variable {r : Registry}

theorem flatUnions_empty : (∅ : Registry).FlatUnions := fun id members h ↦ by
  rw [get?_empty] at h
  cases h

/-- What is known is described as before when the registry has grown. -/
theorem Grows.isUnion_iff {r' : Registry} (hg : r.Grows r') {id : TypeId} (h : r.Knows id) :
    r'.IsUnion id ↔ r.IsUnion id := by
  rw [IsUnion, IsUnion, hg.describe? h]

/-- A new description does no harm if it is no union, or a flat one with known members. -/
theorem FlatUnions.enter (h : r.FlatUnions) (hr : r.WellFormed) {d : Descriptor}
    (hfree : r.get? d.digest = none)
    (hd : ∀ members, d = .union members → (members.size = 0 ∨ 2 ≤ members.size) ∧
      ∀ m ∈ members, r.Knows m ∧ ¬ r.IsUnion m) : (r.enter d).FlatUnions := by
  intro id members hid
  have hmem := mem_nodes_of_get? hid
  rw [toList_enter, List.mem_append, List.mem_singleton] at hmem
  rcases hmem with hmem | hmem
  · have hold := hr.toIndexed.get?_eq_some_iff.2 hmem
    obtain ⟨hsize, hflat⟩ := h id members hold
    refine ⟨hsize, fun m hm hu ↦ hflat m hm ?_⟩
    exact ((Grows.enter r d).isUnion_iff (hr.knows_child hold hm)).1 hu
  · cases hmem
    obtain ⟨hsize, hflat⟩ := hd members rfl
    exact ⟨hsize, fun m hm hu ↦
      (hflat m hm).2 (((Grows.enter r _).isUnion_iff (hflat m hm).1).1 hu)⟩

/-- An alternative of a type is no union. -/
theorem FlatUnions.not_isUnion_alternative (h : r.FlatUnions) {id c : TypeId}
    (hc : c ∈ r.alternatives id) : ¬ r.IsUnion c := by
  rw [alternatives] at hc
  split at hc
  · next members hd =>
    obtain ⟨n, rfl, hn⟩ := describe?_eq_some_iff.1 hd
    exact (h n members hn).2 c hc
  · next hno =>
    rw [List.mem_singleton.1 hc]
    rintro ⟨members, hd⟩
    exact hno members hd

/-- What the root does not reach may go. -/
theorem FlatUnions.prune {s : Structure} (h : s.types.FlatUnions) : s.prune.types.FlatUnions := by
  intro id members hid
  obtain ⟨hsize, hflat⟩ := h id members (Structure.get?_of_get?_prune hid)
  refine ⟨hsize, fun m hm ⟨ms, hms⟩ ↦ hflat m hm ⟨ms, ?_⟩⟩
  obtain ⟨n, rfl, hn⟩ := describe?_eq_some_iff.1 hms
  exact Structure.get?_of_get?_prune hn

end Registry

namespace Inference

open Registry

/-- **Whatever an inference does, unions stay flat.** -/
theorem compositional_keeps_flatUnions : Compositional fun x r ↦ x.Keeps FlatUnions r where
  pure a _ := .pure a
  refuse hx := .refuse hx
  bind hx hk hf := .bind hx hk hf
  get_bind _ h := .get_bind h
  intern hr _ hunion := .intern hr fun hfree h ↦ h.enter hr hfree fun members he ↦ by
    obtain ⟨hsize, halt⟩ := hunion members he
    refine ⟨hsize, fun m hm ↦ ?_⟩
    obtain ⟨id, hid, hmid⟩ := halt m hm
    exact ⟨hr.knows_alternative hid hmid, h.not_isUnion_alternative hmid⟩
  congr hr hxy hx := .congr (hxy _ (.refl _) hr) hx

theorem Reached.flatUnions {r : Registry} (h : Reached r) : r.FlatUnions := by
  induction h with
  | start => exact flatUnions_empty
  | call h c ih => exact compositional_keeps_flatUnions.answer h.wellFormed c ih

end Inference

end Silhouette
