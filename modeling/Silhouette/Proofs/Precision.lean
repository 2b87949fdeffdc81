import Silhouette.Proofs.Inference.Result
import Silhouette.Proofs.TypeTree.Exact

/-!
# An inferred type says nothing that the samples do not show

`Registry.Exact r id V` says, level by level through the registry, that everything in the type `id`
is there because of some value in `V`.  It is the converse of what `Registry.Inhabits` says, and it
reaches ids from trees in the same way: an id is exact for what its tree is exact for
(`Unfolds.exact`).

So no inferred union has an alternative without values, no object a field that was never seen or an
optional mark without need, and the type without values stands only where there are none
(`inference_precise`).
-/

set_option autoImplicit false

namespace Silhouette

open Json (elements valuesAt SomeLacks)

namespace Registry

/-- Everything in a type is there because of a value. -/
inductive Exact (r : Registry) : TypeId → Set Json → Prop
  | scalar {k : Scalar} {V : Set Json} (hne : V.Nonempty)
      (hkind : ∀ v ∈ V, Kind.ofValue v = .ok (.scalar k)) : Exact r (.scalar k) V
  | array {id item : TypeId} {V : Set Json} (hd : r.describe? id = some (.array item))
      (hne : V.Nonempty) (hkind : ∀ v ∈ V, Kind.ofValue v = .ok .array)
      (hitem : Exact r item (elements V)) : Exact r id V
  | object {id : TypeId} {fields : Fields} {V : Set Json}
      (hd : r.describe? id = some (.object fields)) (hne : V.Nonempty)
      (hkind : ∀ v ∈ V, Kind.ofValue v = .ok .object)
      (hkeys : ∀ key, (∃ f, fields.get? key = some f) ↔ (valuesAt V key).Nonempty)
      (hoptional : ∀ key f, fields.get? key = some f →
        (f.presence = .optional ↔ SomeLacks V key))
      (htypes : ∀ key f, fields.get? key = some f → Exact r f.type (valuesAt V key)) : Exact r id V
  | bottom {id : TypeId} (hd : r.describe? id = some (.union ∅)) : Exact r id ∅
  | union {id : TypeId} {members : TypeSet} {V : Set Json} (part : TypeId → Set Json)
      (hd : r.describe? id = some (.union members)) (hmembers : members ≠ ∅)
      (hne : ∀ m ∈ members, (part m).Nonempty) (hpart : ∀ m ∈ members, Exact r m (part m))
      (hV : ∀ v, v ∈ V ↔ ∃ m ∈ members, v ∈ part m) : Exact r id V

variable {r : Registry} {id : TypeId} {t : TypeTree} {V : Set Json}

/-- An id is exact for what its tree is exact for. -/
theorem Unfolds.exact (hu : r.Unfolds id t) (h : t.Exact V) : r.Exact id V := by
  induction hu generalizing V with
  | scalar k =>
    obtain ⟨hne, hkind⟩ := TypeTree.exact_scalar_iff.1 h
    exact .scalar hne hkind
  | @node n d tree hd hc ih =>
    cases d with
    | array item =>
      obtain ⟨hne, hkind, hitem⟩ := TypeTree.exact_array_iff.1 h
      exact .array hd hne hkind (ih item List.mem_cons_self hitem)
    | union members =>
      obtain ⟨part, hpart, hV⟩ := TypeTree.exact_union_iff.1 h
      have hmem : ∀ m ∈ members, tree m ∈ (members.image tree).toList := fun m hm ↦
        Ordered.mem_image.2 ⟨m, hm, rfl⟩
      have hcover : ∀ v, v ∈ V ↔ ∃ m ∈ members, v ∈ part (tree m) := by
        intro v
        rw [hV]
        refine ⟨?_, ?_⟩
        · rintro ⟨u, hu, hv⟩
          obtain ⟨m, hm, rfl⟩ := Ordered.mem_image.1 hu
          exact ⟨m, hm, hv⟩
        · rintro ⟨m, hm, hv⟩
          exact ⟨_, hmem m hm, hv⟩
      by_cases hempty : members = ∅
      · subst hempty
        have hVe : V = ∅ := by
          ext v
          simp [hcover]
        rw [hVe]
        exact .bottom hd
      · exact .union (fun m ↦ part (tree m)) hd hempty (fun m hm ↦ (hpart _ (hmem m hm)).1)
          (fun m hm ↦ ih m hm (hpart _ (hmem m hm)).2) hcover
    | object fields =>
      obtain ⟨hne, hkind, hkeys, hfields⟩ := TypeTree.exact_object_iff.1 h
      have hfield : ∀ {key f}, fields.get? key = some f →
          (f.presence = .optional ↔ SomeLacks V key) ∧ (tree f.type).Exact (valuesAt V key) :=
        fun hf ↦ hfields _ _ _ (Fields.lookup_toTrees_of_get? hf)
      refine .object hd hne hkind (fun key ↦ ?_)
        (fun key f hf ↦ (hfield hf).1) fun key f hf ↦ ?_
      · rw [← hkeys]
        refine ⟨?_, ?_⟩
        · rintro ⟨f, hf⟩
          exact ⟨_, _, Fields.lookup_toTrees_of_get? hf⟩
        · rintro ⟨p, u, hu⟩
          obtain ⟨f, hf, -⟩ := Fields.exists_get?_of_lookup hu
          exact ⟨f, hf⟩
      · exact ih f.type (Descriptor.mem_children_object (Fields.get?_eq_some_iff.1 hf))
          (hfield hf).2

end Registry

open Registry

variable {limit : Nat} {s : Structure}

theorem sample_exact {v : Json} (hd : v.Distinct) (h : inferValue limit v = .ok s) :
    s.types.Exact s.root {v} := by
  obtain ⟨t, ht, hu⟩ := inferValue_unfolds h
  exact hu.exact (TypeTree.exact_ofJson hd ht)

theorem samples_exact {vs : List Json} (hd : ∀ v ∈ vs, v.Distinct)
    (h : inferSamples limit vs = .ok s) :
    ∃ item, s.types.describe? s.root = some (.array item) ∧ s.types.Exact item {v | v ∈ vs} := by
  obtain ⟨item, ts, hitem, hts, hu⟩ := inferSamples_unfolds h
  refine ⟨item, hitem, hu.exact (TypeTree.exact_fold_of_ofItems? hts fun v hv t ht ↦ ?_)⟩
  exact TypeTree.exact_ofJson (hd v hv) ht

/-- **Inference is precise.**  The root that is inferred from a sample is exact for this one value,
and the element type that is inferred from several samples is exact for the set of them. -/
theorem inference_precise (limit : Nat) :
    (∀ (v : Json) (s : Structure), v.Distinct → inferValue limit v = .ok s →
      s.types.Exact s.root {v}) ∧
    ∀ (vs : List Json) (s : Structure), (∀ v ∈ vs, v.Distinct) → inferSamples limit vs = .ok s →
      ∃ item, s.types.describe? s.root = some (.array item) ∧
        s.types.Exact item {v | v ∈ vs} :=
  ⟨fun _ _ ↦ sample_exact, fun _ _ ↦ samples_exact⟩

/-- The rows of the example, as one sample and as several. -/
theorem inference_precise_unevenRows :
    (∃ s, inferValue 256 (.array Json.unevenRows) = .ok s ∧
      s.types.Exact s.root {.array Json.unevenRows}) ∧
    ∃ s item, inferSamples 256 Json.unevenRows = .ok s ∧
      s.types.describe? s.root = some (.array item) ∧
        s.types.Exact item {v | v ∈ Json.unevenRows} := by
  have hd := Json.distinct_of_mem_unevenRows
  obtain ⟨hvalue, hsamples⟩ := inference_precise 256
  obtain ⟨s₁, hs₁⟩ := exists_ok_of_isOk
    (by decide +kernel : (inferValue 256 (.array Json.unevenRows)).isOk)
  obtain ⟨s₂, hs₂⟩ := exists_ok_of_isOk
    (by decide +kernel : (inferSamples 256 Json.unevenRows).isOk)
  obtain ⟨item, hitem⟩ := hsamples _ s₂ hd hs₂
  exact ⟨⟨s₁, hs₁, hvalue _ s₁ (.array hd) hs₁⟩, s₂, item, hs₂, hitem⟩

end Silhouette
