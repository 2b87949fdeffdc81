import Silhouette.Proofs.Inference.Session
import Silhouette.Proofs.Soundness

/-!
# A fold is an upper bound

Whatever is a value of one of some types is a value of their fold, whether or not it was ever seen:
`Inference.fold_upper_bound`.  That a fold of trees loses no values is known
(`TypeTree.Admits.fold`); what is needed here is that it makes no difference whether the values of a
type are looked for in its tree or in the registry (`Unfolds.inhabits_iff`).

From this it also follows that a type keeps its values while the registry grows, and gets no new
ones (`WellFormed.inhabits_grows_iff`).
-/

set_option autoImplicit false

namespace Silhouette

namespace Registry

variable {r r' : Registry} {id : TypeId} {t : TypeTree} {v : Json}

/-- The tree of an id has at its root what the id is described as. -/
theorem Unfolds.of_describe? (hu : r.Unfolds id t) {d : Descriptor}
    (hd : r.describe? id = some d) :
    ∃ tree, t = d.toTree tree ∧ ∀ c ∈ d.children, r.Unfolds c (tree c) := by
  obtain ⟨n, rfl, hn⟩ := describe?_eq_some_iff.1 hd
  cases hu with
  | node tree hd' hc =>
    obtain rfl := Option.some.inj (hd'.symm.trans hn)
    exact ⟨tree, rfl, hc⟩

/-- A value of the id is a value of the tree. -/
theorem Unfolds.admits (hu : r.Unfolds id t) (h : r.Inhabits v id) : t.Admits v := by
  induction h generalizing t with
  | scalar hk =>
    cases hu with
    | scalar k => exact .scalar hk
  | @array items id item hd _ ih =>
    obtain ⟨tree, rfl, hc⟩ := hu.of_describe? hd
    exact .array fun w hw ↦ ih w hw (hc item List.mem_cons_self)
  | @object members id fields hd hkind listed _ required ih =>
    obtain ⟨tree, rfl, hc⟩ := hu.of_describe? hd
    refine .object hkind (fun key w hw ↦ ?_) (fun key w p u hw hu ↦ ?_) fun key u hu ↦ ?_
    · obtain ⟨f, hf⟩ := listed key w hw
      exact ⟨_, _, Fields.lookup_toTrees_of_get? hf⟩
    · obtain ⟨f, hf, -, rfl⟩ := Fields.exists_get?_of_lookup hu
      exact ih key w f hw hf
        (hc _ (Descriptor.mem_children_object (Fields.get?_eq_some_iff.1 hf)))
    · obtain ⟨f, hf, hp, -⟩ := Fields.exists_get?_of_lookup hu
      exact required key f hf hp
  | @union v id m members hd hm _ ih =>
    obtain ⟨tree, rfl, hc⟩ := hu.of_describe? hd
    exact .union (Ordered.mem_image.2 ⟨m, hm, rfl⟩) (ih (hc m hm))

/-- **A type has the values of its tree.** -/
theorem Unfolds.inhabits_iff (hu : r.Unfolds id t) : r.Inhabits v id ↔ t.Admits v :=
  ⟨hu.admits, hu.inhabits⟩

/-- **A type keeps its values and gets no new ones.** -/
theorem WellFormed.inhabits_grows_iff (hr : r.WellFormed) (hg : r.Grows r') (h : r.Knows id) :
    r'.Inhabits v id ↔ r.Inhabits v id := by
  have hu := hr.unfolds_tree h
  rw [hu.inhabits_iff, (hu.grows hg).inhabits_iff]

end Registry

namespace Inference

open Registry

variable {r r' : Registry} {members : TypeSet} {id : TypeId}

/-- A value of a member is a value of the fold. -/
theorem inhabits_fold (hr : r.WellFormed) (h : (fold members).run r = (.ok id, r')) {m : TypeId}
    (hm : m ∈ members) {v : Json} (hv : r.Inhabits v m) : r'.Inhabits v id := by
  cases hforeign : r.firstForeign? members with
  | some n =>
    rw [fold_foreign hforeign] at h
    cases h
  | none =>
    have hM := knows_of_firstForeign?_eq_none hforeign
    obtain ⟨-, -, hu⟩ := (fold_ensures hr hM).of_ok h
    have hadmits := (hr.unfolds_tree (hM m hm)).admits hv
    exact hu.inhabits (hadmits.fold (Ordered.mem_image.2 ⟨m, hm, rfl⟩))

/-- **A fold is an upper bound of its members.**  After any calls, and for all values, observed or
not: what is a value of some member is a value of the fold, and the values of the types that were
known before stay what they were, whatever comes of the fold. -/
theorem fold_upper_bound (hr : Reached r) (members : TypeSet) :
    (∀ (id : TypeId) (r' : Registry), (fold members).run r = (.ok id, r') →
      ∀ m ∈ members, ∀ v, r.Inhabits v m → r'.Inhabits v id) ∧
    ∀ a, r.Knows a → ∀ v, ((fold members).run r).2.Inhabits v a ↔ r.Inhabits v a := by
  refine ⟨fun id r' h m hm v hv ↦ inhabits_fold hr.wellFormed h hm hv, fun a ha v ↦ ?_⟩
  have hg := (grows_answer hr.wellFormed (.fold members)).1
  exact hr.wellFormed.inhabits_grows_iff hg ha

/-- Lists of numbers, lists of strings and `undefined` are folded after a call that has failed.  A
list of numbers that was in no sample is a value of the fold, and so is the marker of
`undefined`. -/
theorem fold_upper_bound_optionalLists :
    ∃ (r r' : Registry) (numbers strings id : TypeId), Reached r ∧ r.size = 2 ∧ r'.size = 5 ∧
      r.describe? numbers = some (.array (.scalar .number)) ∧
      r.describe? strings = some (.array (.scalar .string)) ∧
      (fold (.ofList [numbers, strings, .scalar .undefined])).run r = (.ok id, r') ∧
      r'.Inhabits (.array [.number (.whole 7), .number (.whole 8)]) id ∧
      r'.Inhabits (.object [("$undefined", .bool true)]) id ∧
      ∀ v, r'.Inhabits v numbers ↔ r.Inhabits v numbers := by
  obtain ⟨r, hr⟩ : ∃ r, r = ((Call.value 256 (.array [.array [.number (.whole 1)],
    .array [.string "a"], .object [("$undefined", .bool false)]])).answer.run ∅).2 := ⟨_, rfl⟩
  have hreached : Reached r := hr ▸ .call .start _
  set numbers : TypeId := .node (Descriptor.array (.scalar .number)).digest
  set strings : TypeId := .node (Descriptor.array (.scalar .string)).digest
  have hn : r.describe? numbers = some (.array (.scalar .number)) := hr ▸ by decide +kernel
  have hs : r.describe? strings = some (.array (.scalar .string)) := hr ▸ by decide +kernel
  set members : TypeSet := .ofList [numbers, strings, .scalar .undefined]
  obtain ⟨id, r', hrun⟩ := exists_run_of_isOk
    (hr ▸ by decide +kernel : ((fold members).run r).1.isOk)
  have hsize : ((fold members).run r).2.size = 5 := hr ▸ by decide +kernel
  rw [hrun] at hsize
  obtain ⟨hbound, hsame⟩ := fold_upper_bound hreached members
  rw [hrun] at hsame
  have hlist : r.Inhabits (.array [.number (.whole 7), .number (.whole 8)]) numbers := by
    refine .array hn fun v hv ↦ ?_
    rcases List.mem_pair.1 hv with rfl | rfl
    · exact .scalar rfl
    · exact .scalar rfl
  refine ⟨r, r', numbers, strings, id, hreached, hr ▸ by decide +kernel, hsize, hn, hs, hrun, ?_,
    ?_, hsame numbers ?_⟩
  · exact hbound id r' hrun numbers (Ordered.mem_ofList.2 List.mem_cons_self) _ hlist
  · exact hbound id r' hrun (.scalar .undefined) (Ordered.mem_ofList.2 (by simp)) _ (.scalar rfl)
  · obtain ⟨n, he, hget⟩ := describe?_eq_some_iff.1 hn
    exact he ▸ ⟨_, hget⟩

end Inference

end Silhouette
