import Silhouette.Proofs.Inference.Result
import Silhouette.Proofs.TypeTree.Admits

/-!
# An inferred type describes its samples

`Registry.Inhabits r v id` says, level by level through the registry, that `v` is a value of the
type `id`.  A value of the tree that an id unfolds to is a value of the id (`Unfolds.inhabits`), so
what is known of trees (`TypeTree.admits_ofJson`, `TypeTree.Admits.fold`) holds of the structures
that an inference gives, pruned as they are (`sample_inhabits`).

Values are taken to have pairwise different keys, as all values that were read do
(`Json.distinct_of_parse`).
-/

set_option autoImplicit false

namespace Silhouette

namespace Registry

/-- A value is of the type that an id refers to. -/
inductive Inhabits (r : Registry) : Json → TypeId → Prop
  | scalar {v : Json} {k : Scalar} (h : Kind.ofValue v = .ok (.scalar k)) : Inhabits r v (.scalar k)
  | array {items : List Json} {id item : TypeId} (hd : r.describe? id = some (.array item))
      (h : ∀ v ∈ items, Inhabits r v item) : Inhabits r (.array items) id
  | object {members : List (String × Json)} {id : TypeId} {fields : Fields}
      (hd : r.describe? id = some (.object fields))
      (hkind : Kind.ofValue (.object members) = .ok .object)
      (listed : ∀ key v, Json.member? key members = some v → ∃ f, fields.get? key = some f)
      (values : ∀ key v f, Json.member? key members = some v → fields.get? key = some f →
        Inhabits r v f.type)
      (required : ∀ key f, fields.get? key = some f → f.presence = .required →
        ∃ v, Json.member? key members = some v) :
      Inhabits r (.object members) id
  | union {v : Json} {id m : TypeId} {members : TypeSet}
      (hd : r.describe? id = some (.union members)) (hm : m ∈ members) (h : Inhabits r v m) :
      Inhabits r v id

variable {r : Registry} {id : TypeId} {t : TypeTree} {v : Json}

/-- A value of the tree is a value of the id. -/
theorem Unfolds.inhabits (hu : r.Unfolds id t) (h : t.Admits v) : r.Inhabits v id := by
  induction hu generalizing v with
  | scalar k =>
    cases h with
    | scalar hk => exact .scalar hk
  | @node n d tree hd hc ih =>
    cases d with
    | array item =>
      cases h with
      | array hitems =>
        exact .array hd fun w hw ↦ ih item List.mem_cons_self (hitems w hw)
    | union members =>
      cases h with
      | union hm h =>
        obtain ⟨c, hc, rfl⟩ := Ordered.mem_image.1 hm
        exact .union hd hc (ih c hc h)
    | object fields =>
      cases h with
      | @object _ members hkind listed values required =>
        refine .object hd hkind (fun key w hw ↦ ?_) (fun key w f hw hf ↦ ?_) fun key f hf hp ↦ ?_
        · obtain ⟨p, u, hu⟩ := listed key w hw
          obtain ⟨f, hf, -⟩ := Fields.exists_get?_of_lookup hu
          exact ⟨f, hf⟩
        · exact ih f.type (Descriptor.mem_children_object (Fields.get?_eq_some_iff.1 hf))
            (values key w _ _ hw (Fields.lookup_toTrees_of_get? hf))
        · exact required key _ (hp ▸ Fields.lookup_toTrees_of_get? hf)

end Registry

open Registry

variable {limit : Nat} {s : Structure}

theorem sample_inhabits {v : Json} (hd : v.Distinct) (h : inferValue limit v = .ok s) :
    s.types.Inhabits v s.root := by
  obtain ⟨t, ht, hu⟩ := inferValue_unfolds h
  exact hu.inhabits (TypeTree.admits_ofJson hd ht)

theorem samples_inhabit {vs : List Json} (hd : ∀ v ∈ vs, v.Distinct)
    (h : inferSamples limit vs = .ok s) :
    ∃ item, s.types.describe? s.root = some (.array item) ∧
      ∀ v ∈ vs, s.types.Inhabits v item := by
  obtain ⟨item, ts, hitem, hts, hu⟩ := inferSamples_unfolds h
  refine ⟨item, hitem, fun v hv ↦ hu.inhabits ?_⟩
  exact TypeTree.exists_fold_admits hts (fun w hw t ↦ TypeTree.admits_ofJson (hd w hw)) v hv

theorem results_inhabit {query : String} {results : List Json} (hd : ∀ v ∈ results, v.Distinct)
    (h : inferQuery limit query results = .ok s) :
    ∃ fields, s.types.describe? s.root = some (.object fields) ∧
      ∀ (n : Nat) (hn : n < results.length), ∃ f,
        fields.get? (Inference.statementKey query (n + 1)) = some f ∧ f.presence = .required ∧
          s.types.Inhabits results[n] f.type := by
  obtain ⟨fs, hfs, hu⟩ := inferQuery_unfolds h
  obtain ⟨fields, tree, hfields, htrees, htypes⟩ := hu.exists_fields
  refine ⟨fields, hfields, fun n hn ↦ ?_⟩
  have hnodup := Inference.nodup_keys_resultMembers query results
  have hmem : (Inference.statementKey query (n + 1), results[n]) ∈
      Inference.resultMembers query results :=
    List.mem_mapIdx.2 ⟨n, hn, rfl⟩
  obtain ⟨t, ht⟩ := TypeTree.exists_ofJson?_of_mem_members hfs hmem
  have hlookup := (TypeTree.field?_ofEntries? hfs hnodup).2
    ⟨rfl, results[n], (lookup_eq_some_iff_mem hnodup).2 hmem, ht⟩
  rw [← htrees] at hlookup
  obtain ⟨f, hf, hp, rfl⟩ := Fields.exists_get?_of_lookup hlookup
  refine ⟨f, hf, hp, (htypes _ (Fields.get?_eq_some_iff.1 hf)).inhabits ?_⟩
  exact TypeTree.admits_ofJson (hd _ (List.getElem_mem hn)) ht

/-- **Inference is sound.**  A sample is a value of the root that is inferred from it; each of
several samples is a value of the element type of the list that is inferred from them; and each
result of a query is a value of the required field that stands for it. -/
theorem inference_sound (limit : Nat) :
    (∀ (v : Json) (s : Structure), v.Distinct → inferValue limit v = .ok s →
      s.types.Inhabits v s.root) ∧
    (∀ (vs : List Json) (s : Structure), (∀ v ∈ vs, v.Distinct) → inferSamples limit vs = .ok s →
      ∃ item, s.types.describe? s.root = some (.array item) ∧
        ∀ v ∈ vs, s.types.Inhabits v item) ∧
    ∀ (query : String) (results : List Json) (s : Structure), (∀ v ∈ results, v.Distinct) →
      inferQuery limit query results = .ok s →
        ∃ fields, s.types.describe? s.root = some (.object fields) ∧
          ∀ (n : Nat) (hn : n < results.length), ∃ f,
            fields.get? (query ++ "_query" ++ toString (n + 1)) = some f ∧
              f.presence = .required ∧ s.types.Inhabits results[n] f.type :=
  ⟨fun _ _ ↦ sample_inhabits, fun _ _ ↦ samples_inhabit, fun _ _ _ ↦ results_inhabit⟩

/-- The rows of the example, as one sample, as several, and as the results of a query. -/
theorem inference_sound_unevenRows :
    (∃ s, inferValue 256 (.array Json.unevenRows) = .ok s ∧
      s.types.Inhabits (.array Json.unevenRows) s.root) ∧
    (∃ s item, inferSamples 256 Json.unevenRows = .ok s ∧
      s.types.describe? s.root = some (.array item) ∧
        ∀ v ∈ Json.unevenRows, s.types.Inhabits v item) ∧
    ∃ s fields f, inferQuery 256 "Rows" Json.unevenRows = .ok s ∧
      s.types.describe? s.root = some (.object fields) ∧ fields.get? "Rows_query2" = some f ∧
        f.presence = .required ∧ s.types.Inhabits (Json.unevenRows.get ⟨1, by decide⟩) f.type := by
  have hd := Json.distinct_of_mem_unevenRows
  obtain ⟨hvalue, hsamples, hquery⟩ := inference_sound 256
  obtain ⟨s₁, hs₁⟩ := exists_ok_of_isOk
    (by decide +kernel : (inferValue 256 (.array Json.unevenRows)).isOk)
  obtain ⟨s₂, hs₂⟩ := exists_ok_of_isOk
    (by decide +kernel : (inferSamples 256 Json.unevenRows).isOk)
  obtain ⟨s₃, hs₃⟩ := exists_ok_of_isOk
    (by decide +kernel : (inferQuery 256 "Rows" Json.unevenRows).isOk)
  obtain ⟨item, hitem⟩ := hsamples _ s₂ hd hs₂
  obtain ⟨fields, hfields, hresult⟩ := hquery _ _ s₃ hd hs₃
  obtain ⟨f, hf⟩ := hresult 1 (by decide)
  exact ⟨⟨s₁, hs₁, hvalue _ s₁ (.array hd) hs₁⟩, ⟨s₂, item, hs₂, hitem⟩,
    s₃, fields, f, hs₃, hfields, hf⟩

end Silhouette
