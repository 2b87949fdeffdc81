import Silhouette.Proofs.Inference.Queries

/-!
# Several samples are inferred like one

Three functions infer a structure: of one sample, of several samples, and of the results of a query.
The first is enough.  Several samples are inferred like the list of them, and the results of a query
like the object that has them under the keys of its statements; this goes for structures and for
errors alike, under every limit (`several_as_one`).
-/

set_option autoImplicit false

namespace Silhouette

/-- The fields of a query: as many as there are results, all required, and under the keys of the
statements. -/
theorem exists_required_of_inferQuery {limit : Nat} {query : String} {results : List Json}
    {s : Structure} (h : inferQuery limit query results = .ok s) :
    ∃ fields, s.types.describe? s.root = some (.object fields) ∧
      fields.size = results.length ∧ (∀ e ∈ fields, e.2.presence = .required) ∧
      ∀ key, key ∈ fields.keys ↔
        ∃ k < results.length, key = Inference.statementKey query (k + 1) := by
  obtain ⟨fields, type, hfields, hperm, -⟩ := exists_types_of_inferQuery h
  have hmem : ∀ e, e ∈ fields ↔
      ∃ k < results.length, (Inference.statementKey query (k + 1), ⟨.required, type k⟩) = e :=
    fun e ↦ hperm.mem_iff.trans mem_statementFields
  refine ⟨fields, hfields, ?_, fun e he ↦ ?_, fun key ↦ ?_⟩
  · rw [Ordered.size, hperm.length_eq, length_statementFields]
  · obtain ⟨k, -, rfl⟩ := (hmem e).1 he
    rfl
  · rw [Fields.mem_keys]
    refine ⟨?_, ?_⟩
    · rintro ⟨f, hf⟩
      obtain ⟨k, hk, he⟩ := (hmem _).1 hf
      exact ⟨k, hk, congrArg Prod.fst he.symm⟩
    · rintro ⟨k, hk, rfl⟩
      exact ⟨_, (hmem _).2 ⟨k, hk, rfl⟩⟩

/-- **Several samples are inferred like one.**

* Samples are inferred like the list of them: with the same structure or the same error.
* The results of a query with a proper name are inferred like the object that has them as members,
  in their order and under keys that are pairwise different.  If that succeeds, the root is an
  object with just as many fields as there are results, each of them required and under the key of
  its statement. -/
theorem several_as_one (limit : Nat) :
    (∀ vs : List Json, inferSamples limit vs = inferValue limit (.array vs)) ∧
    ∀ (query : String) (results : List Json), Text.isQueryId query →
      ((results.mapIdx fun i v ↦ (query ++ "_query" ++ toString (i + 1), v)).map Prod.fst).Nodup ∧
      inferQuery limit query results = inferValue limit
        (.object (results.mapIdx fun i v ↦ (query ++ "_query" ++ toString (i + 1), v))) ∧
      ∀ s, inferQuery limit query results = .ok s →
        ∃ fields, s.types.describe? s.root = some (.object fields) ∧
          fields.size = results.length ∧ (∀ e ∈ fields, e.2.presence = .required) ∧
          ∀ key, key ∈ fields.keys ↔
            ∃ k < results.length, key = query ++ "_query" ++ toString (k + 1) :=
  ⟨inferSamples_eq limit, fun query results hq ↦
    ⟨Inference.nodup_keys_resultMembers query results, inferQuery_eq hq limit results,
      fun _ ↦ exists_required_of_inferQuery⟩⟩

/-- The only result of a query is a marker: the object around it is an object with one field.  If
the marker is malformed, the query fails like that object does. -/
theorem several_as_one_statement :
    inferSamples 0 [.null] = inferValue 0 (.array [.null]) ∧
    (∃ s fields, inferQuery 256 "Q1" [.object [("$undefined", .bool true)]] = .ok s ∧
      inferValue 256 (.object [("Q1_query1", .object [("$undefined", .bool true)])]) = .ok s ∧
      s.types.describe? s.root = some (.object fields) ∧ fields.size = 1 ∧
      (∀ e ∈ fields, e.2.presence = .required) ∧ "Q1_query1" ∈ fields.keys) ∧
    (inferQuery 256 "Q1" [.object [("$undefined", .null)]]).isOk = false ∧
    inferQuery 256 "Q1" [.object [("$undefined", .null)]] =
      inferValue 256 (.object [("Q1_query1", .object [("$undefined", .null)])]) := by
  have hq : Text.isQueryId "Q1" := by decide
  obtain ⟨-, hquery⟩ := several_as_one 256
  obtain ⟨-, heq, hfields⟩ := hquery "Q1" [.object [("$undefined", .bool true)]] hq
  obtain ⟨-, herror, -⟩ := hquery "Q1" [.object [("$undefined", .null)]] hq
  obtain ⟨s, hs⟩ := exists_ok_of_isOk
    (by decide +kernel : (inferQuery 256 "Q1" [.object [("$undefined", .bool true)]]).isOk)
  obtain ⟨fields, hroot, hsize, hrequired, hkeys⟩ := hfields s hs
  exact ⟨(several_as_one 0).1 _,
    ⟨s, fields, hs, heq.symm.trans hs, hroot, hsize, hrequired,
      (hkeys _).2 ⟨0, Nat.zero_lt_one, by decide⟩⟩,
    by decide +kernel, herror⟩

end Silhouette
