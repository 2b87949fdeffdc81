import Silhouette.Proofs.Inference.Faults
import Silhouette.Proofs.Inference.Recursion
import Silhouette.Proofs.Inference.Result
import Silhouette.Proofs.Inference.Session

/-!
# The fold always answers

Errors of the fold itself (`InferenceError.IsMergeFault`) are there for whoever folds ids of another
registry.  In an inference after any calls the fold of known ids ends, and it ends with a known id
unless there is a clash of digests; ids that are not known are refused, and nothing is registered
then (`Inference.fold_total`).  So samples never lead to such an error, whatever they are.

That the fold ends is said of the recursion and not of its bound: a call makes calls on parts of its
members with a lower rank (`Subfold`), it depends on these calls and on nothing else, and no bound
above the largest rank is ever met.
-/

set_option autoImplicit false

namespace Silhouette

open Json Registry

/-- An error of the fold itself: a member is not registered, or a member is a part of itself. -/
def InferenceError.IsMergeFault : InferenceError → Prop
  | foreignMember _ => True
  | endless => True
  | _ => False

namespace Inference

variable {r : Registry} {members : TypeSet} {limit : Nat} {ps : List Site} {e : InferenceError}

/-! ## Foreign members -/

theorem mem_of_firstForeign? {id : NodeId} (h : r.firstForeign? members = some id) :
    TypeId.node id ∈ members ∧ r.get? id = none := by
  obtain ⟨m, hm, hnode⟩ := List.mem_filterMap.1 (List.mem_of_find?_eq_some h)
  have hforeign := List.find?_some h
  cases m with
  | scalar k => cases hnode
  | node n =>
    cases hnode
    exact ⟨hm, by simpa [isForeign, contains] using hforeign⟩

/-- A set with a member that is not registered is refused for such a member. -/
theorem fold_of_foreign (h : ∃ id, TypeId.node id ∈ members ∧ r.get? id = none) :
    ∃ id, (TypeId.node id ∈ members ∧ r.get? id = none) ∧
      (fold members).run r = (.error (.foreignMember id), r) := by
  obtain ⟨id, hid, hnone⟩ := h
  cases hforeign : r.firstForeign? members with
  | some id => exact ⟨id, mem_of_firstForeign? hforeign, fold_foreign hforeign⟩
  | none =>
    obtain ⟨d, hd⟩ := knows_of_firstForeign?_eq_none hforeign _ hid
    rw [hnone] at hd
    cases hd

/-! ## Known members -/

theorem fold_of_known (hr : r.WellFormed) (hM : ∀ m ∈ members, r.Knows m)
    (hno : NoClash ((fold members).run r).1) :
    ∃ id r', (fold members).run r = (.ok id, r') ∧ r'.Knows id := by
  obtain ⟨id, r', hrun, -, -, hu⟩ := (fold_ensures hr hM).exists_ok_of_noClash hno
  exact ⟨id, r', hrun, hu.knows⟩

/-! ## Samples -/

theorem not_isMergeFault_of_isClash (h : e.IsClash) : ¬ e.IsMergeFault := by
  cases e with
  | idCollision _ => exact id
  | _ => exact h.elim

theorem ClashOr.not_isMergeFault (h : ClashOr limit ps e) : ¬ e.IsMergeFault := by
  obtain hclash | ⟨_, p, _, -, -, hp⟩ := h
  · exact not_isMergeFault_of_isClash hclash
  · cases hp with
    | tooDeep => exact id
    | malformed => exact id

theorem observeQuery_of_invalid {query : String} (h : Text.isQueryId query = false)
    (results : List Json) :
    (observeQuery limit query results).run r = (.error (.invalidQueryId query), r) := by
  rw [observeQuery, h]
  rfl

theorem inferValue_not_isMergeFault {v : Json} (h : inferValue limit v = .error e) :
    ¬ e.IsMergeFault :=
  (structure?_error (observe_faults wellFormed_empty v) h).not_isMergeFault

theorem inferQuery_not_isMergeFault {query : String} {results : List Json}
    (h : inferQuery limit query results = .error e) : ¬ e.IsMergeFault := by
  cases hq : Text.isQueryId query with
  | false =>
    rw [inferQuery, structure?, observeQuery_of_invalid hq] at h
    cases h
    exact id
  | true =>
    exact (structure?_error (observeQuery_faults wellFormed_empty hq results) h).not_isMergeFault

/-- A call that meets an error of the fold is a fold of ids that are not registered. -/
theorem isMergeFault_answer (hr : r.WellFormed) {c : Call} (h : (c.answer.run r).1 = .error e)
    (he : e.IsMergeFault) :
    ∃ members, c = .fold members ∧ ∃ id, TypeId.node id ∈ members ∧ r.get? id = none := by
  have hrun : c.answer.run r = (.error e, (c.answer.run r).2) := Prod.ext h rfl
  have hvalue : ∀ limit v, c.answer = observe limit v → ¬ e.IsMergeFault := by
    intro limit v hc
    rw [hc] at hrun
    exact ((observe_faults hr v).of_error hrun).2.2.not_isMergeFault
  cases c with
  | value limit v => exact absurd he (hvalue limit v rfl)
  | samples limit vs => exact absurd he (hvalue limit (.array vs) (answer_samples limit vs))
  | fold members =>
    refine ⟨members, rfl, ?_⟩
    cases hforeign : r.firstForeign? members with
    | some id => exact ⟨id, mem_of_firstForeign? hforeign⟩
    | none =>
      have hfold := fold_ensures hr (knows_of_firstForeign?_eq_none hforeign)
      exact absurd he (not_isMergeFault_of_isClash (hfold.of_error hrun).2.2)

/-! ## All of it -/

/-- **The fold is total, and samples never fail in it.**  After any calls, and for any set of ids:

* every bound above the largest rank gives the same, so the recursion ends by itself: one step of
  the fold makes calls (`Subfold`) on parts of its members only, each with a lower largest rank in
  the registry as it has grown by then, and these calls are all that its outcome depends on;
* if some node is not registered, the fold fails for such a node and registers nothing;
* otherwise it answers an id that is known then, if there is no clash of digests.

A call other than a fold of unregistered ids meets no error of the fold, and neither does any
sample, any list of samples, and any query, under any limit. -/
theorem fold_total (hr : Reached r) :
    (∀ members : TypeSet,
      (∀ height, r.topRank members < height →
        (foldWithin height members).run r = (fold members).run r) ∧
      (∀ f : TypeSet → Inference TypeId,
        (∀ r' parts, Subfold r members r' parts → (f parts).run r' = (fold parts).run r') →
          (foldStep f members).run r = (fold members).run r) ∧
      ((∃ id, TypeId.node id ∈ members ∧ r.get? id = none) →
        ∃ id, (TypeId.node id ∈ members ∧ r.get? id = none) ∧
          (fold members).run r = (.error (.foreignMember id), r)) ∧
      ((∀ m ∈ members, r.Knows m) → NoClash ((fold members).run r).1 →
        ∃ id r', (fold members).run r = (.ok id, r') ∧ r'.Knows id)) ∧
    (∀ (c : Call) (e : InferenceError), (c.answer.run r).1 = .error e → e.IsMergeFault →
      ∃ members, c = .fold members ∧ ∃ id, TypeId.node id ∈ members ∧ r.get? id = none) ∧
    ∀ (limit : Nat) (e : InferenceError),
      (∀ v : Json, inferValue limit v = .error e → ¬ e.IsMergeFault) ∧
      (∀ vs : List Json, inferSamples limit vs = .error e → ¬ e.IsMergeFault) ∧
      ∀ (query : String) (results : List Json),
        inferQuery limit query results = .error e → ¬ e.IsMergeFault := by
  have hw := hr.wellFormed
  refine ⟨fun members ↦ ⟨?_, ?_, fold_of_foreign, fold_of_known hw⟩, ?_, ?_⟩
  · intro height h
    exact (fold_eq_foldWithin hw h).symm
  · intro f h
    exact foldStep_fold hw h
  · intro c e h he
    exact isMergeFault_answer hw h he
  · refine fun limit e ↦ ⟨fun v ↦ inferValue_not_isMergeFault, fun vs h ↦ ?_,
      fun query results ↦ inferQuery_not_isMergeFault⟩
    rw [inferSamples_eq] at h
    exact inferValue_not_isMergeFault h

/-- The object types that are registered. -/
def objectTypes (r : Registry) : TypeSet :=
  .ofList ((r.ids.map TypeId.node).filter fun id ↦ (r.fields? id).isSome)

/-- A failed call leaves the two object types of the example behind.  They are folded, which
registers two more types; together with a node that is not registered they are refused. -/
theorem fold_total_after_failure :
    ∃ r, Reached r ∧ r.size = 5 ∧ (objectTypes r).size = 2 ∧ r.topRank (objectTypes r) = 5 ∧
      (∀ height, 5 < height →
        (foldWithin height (objectTypes r)).run r = (fold (objectTypes r)).run r) ∧
      (foldStep fold (objectTypes r)).run r = (fold (objectTypes r)).run r ∧
      (∃ id r', (fold (objectTypes r)).run r = (.ok id, r') ∧ r'.size = 7 ∧ r'.Knows id) ∧
      (∃ id, r.get? id = none ∧ (fold ((objectTypes r).insert (.node ⟨0⟩))).run r =
        (.error (.foreignMember id), r)) ∧
      ∀ e, inferValue 1 (.array Json.unevenRows) = .error e → ¬ e.IsMergeFault := by
  obtain ⟨r, hr⟩ : ∃ r, r = ((Call.value 256 (.array (Json.unevenRows ++
    [.object [("$undefined", .bool false)]]))).answer.run ∅).2 := ⟨_, rfl⟩
  have hreached : Reached r := hr ▸ .call .start _
  have hknown : ∀ m ∈ objectTypes r, r.Knows m := fun m hm ↦ by
    obtain ⟨id, hid, rfl⟩ := List.mem_map.1 (List.mem_filter.1 (Ordered.mem_ofList.1 hm)).1
    exact mem_ids_iff.1 hid
  have htop : r.topRank (objectTypes r) = 5 := hr ▸ by decide +kernel
  have hsize : ((fold (objectTypes r)).run r).2.size = 7 := by
    rw [hr]
    decide +kernel
  obtain ⟨id, r', hrun⟩ := exists_run_of_isOk
    (hr ▸ by decide +kernel : ((fold (objectTypes r)).run r).1.isOk)
  have hno : NoClash ((fold (objectTypes r)).run r).1 := by
    rw [hrun]
    rintro _ ⟨⟩
  obtain ⟨hfold, -, hsamples⟩ := fold_total hreached
  obtain ⟨hheight, hstep, -, hok⟩ := hfold (objectTypes r)
  obtain ⟨-, -, hforeign, -⟩ := hfold ((objectTypes r).insert (.node ⟨0⟩))
  obtain ⟨_, _, hrun', hid⟩ := hok hknown hno
  obtain ⟨foreign, ⟨-, hnone⟩, hrefused⟩ := hforeign
    ⟨⟨0⟩, Ordered.mem_insert_self _ _, hr ▸ by decide +kernel⟩
  refine ⟨r, hreached, hr ▸ by decide +kernel, hr ▸ by decide +kernel, htop,
    fun height h ↦ hheight height (htop ▸ h), hstep fold fun _ _ _ ↦ rfl,
    ⟨_, _, hrun', ?_, hid⟩, ⟨foreign, hnone, hrefused⟩, fun e ↦ (hsamples 1 e).1 _⟩
  rw [hrun'] at hsize
  exact hsize

end Inference

end Silhouette
