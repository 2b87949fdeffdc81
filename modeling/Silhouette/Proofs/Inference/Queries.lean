import Silhouette.Proofs.Inference.Result
import Silhouette.Proofs.Text

/-!
# The results of a query as one object

A query is observed like the object that its results make under their keys
(`Inference.observeQuery_of_isQueryId`).  Such an object is never a marker, not even if there is
only one statement: the keys start with a capital letter, and the key of a marker does not.  No two
keys are the same, so there is a field for each result and no other, and each says what its result
is (`exists_types_of_inferQuery`).
-/

set_option autoImplicit false

namespace Silhouette

/-! ## Keys of markers -/

theorem Text.exists_isUpper_of_isQueryId {query : String} (h : isQueryId query) :
    ∃ c cs, query.toList = c :: cs ∧ c.isUpper := by
  obtain ⟨c, cs, hquery, hc, -⟩ := hasNameShape_iff.1 h
  exact ⟨c, cs, hquery, hc⟩

theorem Marker.head?_key (m : Marker) : m.key.toList.head? = some '$' := by
  cases m <;> rfl

/-- What starts otherwise is no key of a marker. -/
theorem Marker.ofKey?_eq_none {name : String} (h : name.toList.head? ≠ some '$') :
    ofKey? name = none := by
  refine List.find?_eq_none.2 fun m _ hm ↦ h ?_
  rw [← eq_of_beq hm, head?_key]

namespace Inference

variable {query : String} {results : List Json}

theorem ofKey?_statementKey (hq : Text.isQueryId query) (n : Nat) :
    Marker.ofKey? (statementKey query n) = none := by
  obtain ⟨c, cs, hquery, hc⟩ := Text.exists_isUpper_of_isQueryId hq
  refine Marker.ofKey?_eq_none fun h ↦ ?_
  rw [statementKey, String.toList_append, String.toList_append, hquery, List.cons_append,
    List.cons_append, List.head?_cons, Option.some.injEq] at h
  rw [h] at hc
  exact absurd hc (by decide)

theorem read?_resultMembers (hq : Text.isQueryId query) (results : List Json) :
    Marker.read? (resultMembers query results) = none := by
  match results with
  | [] => rfl
  | [v] =>
    show Option.map _ (Option.map _ (Marker.ofKey? (statementKey query 1))) = none
    rw [ofKey?_statementKey hq]
    rfl
  | _ :: _ :: _ =>
    rw [resultMembers, List.mapIdx_cons, List.mapIdx_cons]
    rfl

/-! ## The query and the object -/

/-- **A query is observed as the object of its results**, from any registry. -/
theorem observeQuery_of_isQueryId (hq : Text.isQueryId query) (limit : Nat) (results : List Json) :
    observeQuery limit query results = observe limit (.object (resultMembers query results)) := by
  have hroot : checkDepth limit .root = pure () := by
    rw [checkDepth, if_neg (by simp)]
  rw [observeQuery, hq, observe, observeAt, hroot, pure_bind, read?_resultMembers hq]
  rfl

theorem mem_resultMembers {key : String} {v : Json} :
    (key, v) ∈ resultMembers query results ↔
      ∃ k, ∃ hk : k < results.length, key = statementKey query (k + 1) ∧ v = results[k] := by
  rw [resultMembers, List.mem_mapIdx]
  simp only [Prod.mk.injEq, @eq_comm _ _ key, @eq_comm _ _ v]

end Inference

theorem inferQuery_eq {query : String} (hq : Text.isQueryId query) (limit : Nat)
    (results : List Json) :
    inferQuery limit query results =
      inferValue limit (.object (Inference.resultMembers query results)) := by
  rw [inferQuery, inferValue, Inference.observeQuery_of_isQueryId hq]

/-! ## The fields -/

/-- One required field for each statement of a query, in their order. -/
def statementFields (query : String) (count : Nat) (type : Nat → TypeId) : List (String × Field) :=
  (List.range count).map fun k ↦ (Inference.statementKey query (k + 1), ⟨.required, type k⟩)

section Fields

variable {query : String} {count : Nat} {type : Nat → TypeId}

theorem mem_statementFields {e : String × Field} :
    e ∈ statementFields query count type ↔
      ∃ k < count, (Inference.statementKey query (k + 1), ⟨.required, type k⟩) = e := by
  rw [statementFields, List.mem_map]
  simp only [List.mem_range]

@[simp] theorem length_statementFields : (statementFields query count type).length = count := by
  rw [statementFields, List.length_map, List.length_range]

theorem nodup_statementFields : (statementFields query count type).Nodup := by
  refine List.Nodup.map (fun m n h ↦ ?_) List.nodup_range
  have := Inference.statementKey_injective (congrArg Prod.fst h)
  omega

end Fields

section Results

variable {limit : Nat} {query : String} {results : List Json} {s : Structure}

/-- The root is an object with the keys of the statements, and under each of them there is the type
of the result. -/
theorem exists_fields_of_inferQuery (h : inferQuery limit query results = .ok s) :
    ∃ fields, s.types.describe? s.root = some (.object fields) ∧
      (∀ e ∈ fields, ∃ k < results.length, e.1 = Inference.statementKey query (k + 1)) ∧
      ∀ (k : Nat) (hk : k < results.length), ∃ id t,
        (Inference.statementKey query (k + 1), ⟨.required, id⟩) ∈ fields ∧
          TypeTree.ofJson? results[k] = some t ∧ s.types.Unfolds id t := by
  obtain ⟨fs, hfs, hu⟩ := inferQuery_unfolds h
  obtain ⟨fields, tree, hfields, htrees, htypes⟩ := hu.exists_fields
  have hnodup : (fs.map fun e ↦ e.1).Nodup := by
    rw [TypeTree.keys_of_ofEntries? hfs]
    exact Inference.nodup_keys_resultMembers query results
  have hmem : ∀ x, x ∈ fields.toTrees tree ↔ x ∈ fs := by
    rw [htrees]
    exact Ordered.mem_ofList_of_nodup hnodup
  refine ⟨fields, hfields, fun e he ↦ ?_, fun k hk ↦ ?_⟩
  · obtain ⟨-, v, hv, -⟩ := (TypeTree.mem_of_ofEntries? hfs _ _ _).1
      ((hmem _).1 (Fields.mem_toTrees.2 ⟨e, he, rfl⟩))
    obtain ⟨k, hk, hkey, -⟩ := Inference.mem_resultMembers.1 hv
    exact ⟨k, hk, hkey⟩
  · have hv : (Inference.statementKey query (k + 1), results[k]) ∈
        Inference.resultMembers query results := Inference.mem_resultMembers.2 ⟨k, hk, rfl, rfl⟩
    obtain ⟨t, ht⟩ := TypeTree.exists_ofJson?_of_mem_members hfs hv
    have hentry := (TypeTree.mem_of_ofEntries? hfs _ _ _).2 ⟨rfl, _, hv, ht⟩
    obtain ⟨⟨key, p, id⟩, he, heq⟩ := Fields.mem_toTrees.1 ((hmem _).2 hentry)
    cases heq
    exact ⟨id, _, he, ht, htypes _ he⟩

/-- **The fields of a query are those of its statements**: one required field for each, which holds
the type of its result. -/
theorem exists_types_of_inferQuery (h : inferQuery limit query results = .ok s) :
    ∃ (fields : Fields) (type : Nat → TypeId),
      s.types.describe? s.root = some (.object fields) ∧
      fields.toList.Perm (statementFields query results.length type) ∧
      ∀ (k : Nat) (hk : k < results.length),
        ∃ t, TypeTree.ofJson? results[k] = some t ∧ s.types.Unfolds (type k) t := by
  obtain ⟨fields, hfields, hkeys, hstatements⟩ := exists_fields_of_inferQuery h
  choose! type tree hmem htree using hstatements
  refine ⟨fields, type, hfields, ?_, fun k hk ↦ ⟨tree k, htree k hk⟩⟩
  refine (List.perm_ext_iff_of_nodup fields.nodup_toList nodup_statementFields).2 fun e ↦ ?_
  rw [mem_statementFields]
  refine ⟨fun he ↦ ?_, ?_⟩
  · obtain ⟨k, hk, hkey⟩ := hkeys e he
    exact ⟨k, hk, Ordered.eq_of_key_eq (hmem k hk) he hkey.symm⟩
  · rintro ⟨k, hk, rfl⟩
    exact hmem k hk

end Results

end Silhouette
