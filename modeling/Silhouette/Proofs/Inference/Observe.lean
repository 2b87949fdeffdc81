import Silhouette.Inference.Observe
import Silhouette.Proofs.Inference.Fold
import Silhouette.Proofs.Text
import Silhouette.Proofs.TypeTree.OfJson

/-!
# Observing a sample

`Inference.observe` does what `TypeTree.ofJson?` says: where it succeeds, the id it answers unfolds
to the type of the sample, and the sample is not nested too deep (`observeAt_ensures`).  Where it
fails there is a reason for it (`InferenceError.IsDue`): a clash of digests, a malformed marker or a
place that lies too deep.  So, clashes apart, whether a sample is accepted depends on the sample and
the limit only.
-/

set_option autoImplicit false

namespace Silhouette

/-- There is a reason for an error: the digest of a new description is taken, or the sample has no
type, or its deepest place lies below the limit. -/
def InferenceError.IsDue {α : Type} (type? : Option α) (limit depth : Nat)
    (e : InferenceError) : Prop :=
  e.IsClash ∨ type? = none ∨ limit < depth

/-- The reason passes from a part to the whole. -/
theorem InferenceError.IsDue.whole {α β : Type} {type? : Option α} {whole? : Option β}
    {limit depth depth' : Nat} {e : InferenceError} (h : e.IsDue type? limit depth)
    (hnone : type? = none → whole? = none) (hdepth : depth ≤ depth') :
    e.IsDue whole? limit depth' :=
  h.imp_right (Or.imp hnone fun hlt ↦ Nat.lt_of_lt_of_le hlt hdepth)

namespace Inference

open Registry

variable {limit : Nat} {r : Registry}

/-! ## Pieces -/

theorem checkDepth_ensures (hr : r.WellFormed) (path : Path) :
    (checkDepth limit path).Ensures r (fun _ _ ↦ path.depth ≤ limit)
      fun _ ↦ limit < path.depth := by
  rw [checkDepth]
  split
  · next h => exact .throw hr h
  · next h => exact .pure hr (Nat.le_of_not_lt h)

/-- What comes after the depth of a place has been looked at. -/
theorem checkDepth_bind_ensures {α β : Type} {path : Path} {x : Inference β} {type? : Option α}
    {n : Nat} {post : Registry → β → Prop} (hr : r.WellFormed)
    (hx : ∀ r', r.Grows r' → r'.WellFormed → path.depth ≤ limit →
      x.Ensures r' post (InferenceError.IsDue type? limit (path.depth + n))) :
    (checkDepth limit path >>= fun _ ↦ x).Ensures r post
      (InferenceError.IsDue type? limit (path.depth + n)) := by
  refine .bind ((checkDepth_ensures hr path).imp (fun _ _ _ _ h ↦ h) fun e h ↦ ?_)
    fun _ r' hg hw h ↦ hx r' hg hw h
  exact .inr (.inr (Nat.lt_of_lt_of_le h (Nat.le_add_right _ _)))

theorem scalar_ensures (hr : r.WellFormed) (path : Path) {type? : Option TypeTree} {k : Scalar}
    (hk : type? = some (.scalar k)) :
    (checkDepth limit path >>= fun _ ↦ pure (.scalar k)).Ensures r
      (fun r' id ↦ ∃ t, type? = some t ∧ path.depth + 0 ≤ limit ∧ r'.Unfolds id t)
      (InferenceError.IsDue type? limit (path.depth + 0)) :=
  checkDepth_bind_ensures hr fun _ _ hw hd ↦ .pure hw ⟨_, hk, hd, .scalar k⟩

theorem closeList_ensures (hr : r.WellFormed) {members : TypeSet} (hM : ∀ m ∈ members, r.Knows m) :
    (closeList members).Ensures r
      (fun r' id ↦ r'.Unfolds id (.array (TypeTree.fold (members.image r.tree))))
      InferenceError.IsClash :=
  array_ensures (fold_ensures hr hM)

theorem object_ensures (hr : r.WellFormed) {fields : Fields}
    (hknown : ∀ e ∈ fields, r.Knows e.2.type) :
    (intern (.object fields)).Ensures r
      (fun r' id ↦ r'.Unfolds id (.ofFields (fields.toTrees r.tree)))
      InferenceError.IsClash := by
  refine Ensures.intern hr (d := .object fields) fun c hc ↦ ?_
  obtain ⟨e, he, rfl⟩ := List.mem_map.1 hc
  exact hknown e he

/-- A type more is met. -/
theorem image_insert {r' : Registry} (hr : r.WellFormed) (hg : r.Grows r') {met : TypeSet}
    (hM : ∀ m ∈ met, r.Knows m) {id : TypeId} {t : TypeTree} (h : r'.Unfolds id t) :
    (∀ m ∈ met.insert id, r'.Knows m) ∧
      ∀ u, u ∈ (met.insert id).image r'.tree ↔ u = t ∨ u ∈ met.image r.tree := by
  refine ⟨fun m hm ↦ ?_, fun u ↦ ?_⟩
  · rcases Ordered.mem_insert_set.1 hm with rfl | hm
    · exact h.knows
    · exact hg.knows (hM m hm)
  · have hkeep : ∀ m ∈ met, r'.tree m = r.tree m := fun m hm ↦ hr.tree_grows hg (hM m hm)
    rw [← Ordered.image_congr hkeep]
    simp only [Ordered.mem_image, Ordered.mem_insert_set, or_and_right, exists_or,
      exists_eq_left, h.tree_eq, @eq_comm _ t u]

/-- A field more is met. -/
theorem toTrees_set_grows {r' : Registry} (hr : r.WellFormed) (hg : r.Grows r') {met : Fields}
    (hM : ∀ e ∈ met, r.Knows e.2.type) (key : String) {id : TypeId} {t : TypeTree}
    (h : r'.Unfolds id t) :
    (∀ e ∈ met.set key ⟨.required, id⟩, r'.Knows e.2.type) ∧
      (met.set key ⟨.required, id⟩).toTrees r'.tree =
        (met.toTrees r.tree).insert (key, .required, t) := by
  refine ⟨fun e he ↦ ?_, ?_⟩
  · rcases Ordered.mem_insert.1 he with rfl | ⟨he, -⟩
    · exact h.knows
    · exact hg.knows (hM e he)
  · rw [Fields.toTrees_set, Fields.toTrees_congr fun e he ↦ hr.tree_grows hg (hM e he), h.tree_eq]

/-! ## The walk through a sample -/

mutual

/-- **The id of a value unfolds to the type of the value**, and a failure is due. -/
theorem observeAt_ensures : ∀ (v : Json) (path : Path) {r : Registry}, r.WellFormed →
    (observeAt limit path v).Ensures r
      (fun r' id ↦ ∃ t, TypeTree.ofJson? v = some t ∧ path.depth + v.nesting ≤ limit ∧
        r'.Unfolds id t)
      (InferenceError.IsDue (TypeTree.ofJson? v) limit (path.depth + v.nesting))
  | .null, path, _, hr => scalar_ensures hr path rfl
  | .bool _, path, _, hr => scalar_ensures hr path rfl
  | .number _, path, _, hr => scalar_ensures hr path rfl
  | .string _, path, _, hr => scalar_ensures hr path rfl
  | .array items, path, _, hr => by
    refine checkDepth_bind_ensures hr fun r₁ _ hw₁ hd ↦ ?_
    have hempty : ∀ m ∈ (∅ : TypeSet), r₁.Knows m := fun m hm ↦ absurd hm (Ordered.not_mem_empty m)
    refine .bind ((observeItems_ensures items path 0 hd hw₁ hempty).imp (fun _ _ _ _ h ↦ h)
      fun e h ↦ ?_) fun met r₂ _ hw₂ h ↦ ?_
    · rw [TypeTree.ofJson?, Json.nesting]
      exact h.whole (fun hn ↦ by rw [hn]; rfl) (Nat.le_refl _)
    · obtain ⟨ts, hts, hn, hknown, hmet⟩ := h
      refine (closeList_ensures hw₂ hknown).imp (fun id r₃ _ _ hu ↦ ?_) fun e he ↦ .inl he
      have himage : met.image r₂.tree = .ofList ts :=
        Ordered.ext_mem fun t ↦ by simp [hmet t]
      refine ⟨_, ?_, hn, himage ▸ hu⟩
      rw [TypeTree.ofJson?, hts]
      rfl
  | .object members, path, _, hr => by
    refine checkDepth_bind_ensures hr fun r₁ _ hw₁ hd ↦ ?_
    cases hm : Marker.read? members with
    | some answer =>
      cases answer with
      | ok k =>
        refine .pure hw₁ ⟨.scalar k, ?_, ?_, .scalar k⟩
        · rw [TypeTree.ofJson?, hm]
        · rw [Json.nesting, hm]
          exact hd
      | error fault =>
        refine .throw hw₁ (.inr (.inl ?_))
        rw [TypeTree.ofJson?, hm]
    | none =>
      have hnest : Json.nesting (.object members) = Json.nestingEntries members := by
        rw [Json.nesting, hm]
        rfl
      have htype : TypeTree.ofJson? (.object members) =
          (TypeTree.ofEntries? members).map fun fs ↦ .ofFields (.ofList fs) := by
        rw [TypeTree.ofJson?, hm]
      rw [hnest, htype]
      have hempty : ∀ e ∈ (∅ : Fields), r₁.Knows e.2.type :=
        fun e he ↦ absurd he (Ordered.not_mem_empty e)
      refine .bind ((observeMembers_ensures members path hd hw₁ hempty).imp (fun _ _ _ _ h ↦ h)
        fun e h ↦ ?_) fun met r₂ _ hw₂ h ↦ ?_
      · exact h.whole (fun hn ↦ by rw [hn]; rfl) (Nat.le_refl _)
      · obtain ⟨fs, hfs, hn, hknown, hmet⟩ := h
        rw [hfs]
        exact (object_ensures hw₂ hknown).imp
          (fun id r₃ _ _ hu ↦ ⟨_, rfl, hn, by rw [hmet] at hu; exact hu⟩) fun e he ↦ .inl he

theorem observeItems_ensures : ∀ (vs : List Json) (path : Path) (index : Nat) {r : Registry}
    {met : TypeSet}, path.depth ≤ limit → r.WellFormed → (∀ m ∈ met, r.Knows m) →
    (observeItems limit path index met vs).Ensures r
      (fun r' met' ↦ ∃ ts, TypeTree.ofItems? vs = some ts ∧
        path.depth + Json.nestingItems vs ≤ limit ∧ (∀ m ∈ met', r'.Knows m) ∧
          ∀ t, t ∈ met'.image r'.tree ↔ t ∈ met.image r.tree ∨ t ∈ ts)
      (InferenceError.IsDue (TypeTree.ofItems? vs) limit (path.depth + Json.nestingItems vs))
  | [], path, index, r, met, hd, hr, hM =>
    .pure hr ⟨[], rfl, hd, hM, fun t ↦ by simp⟩
  | v :: vs, path, index, r, met, hd, hr, hM => by
    refine .bind ((observeAt_ensures v (path.push (.index index)) hr).imp (fun _ _ _ _ h ↦ h)
      fun e h ↦ ?_) fun id r₁ hg₁ hw₁ h ↦ ?_
    · rw [TypeTree.ofItems?, Json.nestingItems]
      exact h.whole (fun hn ↦ by rw [hn]; rfl) (by rw [Path.depth_push]; omega)
    obtain ⟨t, ht, hn, hu⟩ := h
    rw [Path.depth_push] at hn
    obtain ⟨hknown, himage⟩ := image_insert hr hg₁ hM hu
    refine (observeItems_ensures vs path (index + 1) hd hw₁ hknown).imp (fun met' r₂ _ _ h ↦ ?_)
      fun e h ↦ ?_
    · obtain ⟨ts, hts, hns, hknown', hmet⟩ := h
      refine ⟨t :: ts, ?_, ?_, hknown', fun u ↦ ?_⟩
      · rw [TypeTree.ofItems?, ht, hts]
        rfl
      · rw [Json.nestingItems]
        omega
      · rw [hmet, himage, List.mem_cons, or_assoc, or_left_comm]
    · rw [TypeTree.ofItems?, ht, Json.nestingItems]
      exact h.whole (fun hn ↦ by rw [hn]; rfl) (by omega)

theorem observeMembers_ensures : ∀ (members : List (String × Json)) (path : Path) {r : Registry}
    {met : Fields}, path.depth ≤ limit → r.WellFormed → (∀ e ∈ met, r.Knows e.2.type) →
    (observeMembers limit path met members).Ensures r
      (fun r' met' ↦ ∃ fs, TypeTree.ofEntries? members = some fs ∧
        path.depth + Json.nestingEntries members ≤ limit ∧ (∀ e ∈ met', r'.Knows e.2.type) ∧
          met'.toTrees r'.tree = (met.toTrees r.tree).insertMany fs)
      (InferenceError.IsDue (TypeTree.ofEntries? members) limit
        (path.depth + Json.nestingEntries members))
  | [], path, r, met, hd, hr, hM =>
    .pure hr ⟨[], rfl, hd, hM, rfl⟩
  | (key, v) :: rest, path, r, met, hd, hr, hM => by
    refine .bind ((observeAt_ensures v (path.push (.key key)) hr).imp (fun _ _ _ _ h ↦ h)
      fun e h ↦ ?_) fun id r₁ hg₁ hw₁ h ↦ ?_
    · rw [TypeTree.ofEntries?, Json.nestingEntries]
      exact h.whole (fun hn ↦ by rw [hn]; rfl) (by rw [Path.depth_push]; omega)
    obtain ⟨t, ht, hn, hu⟩ := h
    rw [Path.depth_push] at hn
    obtain ⟨hknown, htrees⟩ := toTrees_set_grows hr hg₁ hM key hu
    refine (observeMembers_ensures rest path hd hw₁ hknown).imp (fun met' r₂ _ _ h ↦ ?_)
      fun e h ↦ ?_
    · obtain ⟨fs, hfs, hns, hknown', hmet⟩ := h
      refine ⟨(key, .required, t) :: fs, ?_, ?_, hknown', ?_⟩
      · rw [TypeTree.ofEntries?, ht, hfs]
        rfl
      · rw [Json.nestingEntries]
        omega
      · rw [hmet, htrees]
        rfl
    · rw [TypeTree.ofEntries?, ht, Json.nestingEntries]
      exact h.whole (fun hn ↦ by rw [hn]; rfl) (by omega)

end

/-! ## From the root -/

/-- **What a sample is taken for**, from any well-formed registry. -/
theorem observe_ensures (hr : r.WellFormed) (v : Json) :
    (observe limit v).Ensures r
      (fun r' id ↦ ∃ t, TypeTree.ofJson? v = some t ∧ v.nesting ≤ limit ∧ r'.Unfolds id t)
      (InferenceError.IsDue (TypeTree.ofJson? v) limit v.nesting) := by
  have h : (observe limit v).Ensures r _ _ := observeAt_ensures v .root hr
  simp only [Path.depth_root, Nat.zero_add] at h
  exact h

/-- Samples are observed as the list of them is. -/
theorem observe_array (limit : Nat) (vs : List Json) :
    observe limit (.array vs) = observeSamples limit vs := by
  have hroot : checkDepth limit .root = pure () := by
    rw [checkDepth, if_neg (by simp)]
  rw [observe, observeAt, hroot, pure_bind]
  rfl

/-- The results of a query under their keys. -/
def resultMembers (query : String) (results : List Json) : List (String × Json) :=
  results.mapIdx fun i v ↦ (statementKey query (i + 1), v)

theorem statementKey_injective {query : String} {m n : Nat}
    (h : statementKey query m = statementKey query n) : m = n :=
  Text.append_toString_injective h

theorem nodup_keys_resultMembers (query : String) (results : List Json) :
    ((resultMembers query results).map Prod.fst).Nodup := by
  refine List.pairwise_iff_getElem.2 fun i j hi hj hij he ↦ ?_
  simp only [resultMembers, List.getElem_map, List.getElem_mapIdx] at he
  have := statementKey_injective he
  omega

theorem observeQuery_ensures (hr : r.WellFormed) (query : String) (results : List Json) :
    (observeQuery limit query results).Ensures r
      (fun r' id ↦ ∃ fs, TypeTree.ofEntries? (resultMembers query results) = some fs ∧
        r'.Unfolds id (.ofFields (.ofList fs)))
      fun e ↦ Text.isQueryId query = false ∨
        e.IsDue (TypeTree.ofEntries? (resultMembers query results)) limit
          (Json.nestingEntries (resultMembers query results)) := by
  rw [observeQuery]
  split
  · next hq => exact .throw hr (.inl (by simpa using hq))
  · have hempty : ∀ e ∈ (∅ : Fields), r.Knows e.2.type :=
      fun e he ↦ absurd he (Ordered.not_mem_empty e)
    have hmembers := observeMembers_ensures (resultMembers query results) .root (Nat.zero_le limit)
      hr hempty
    simp only [Path.depth_root, Nat.zero_add] at hmembers
    refine .bind (hmembers.imp (fun _ _ _ _ h ↦ h) fun e he ↦ .inr he) fun met r₁ _ hw₁ h ↦ ?_
    obtain ⟨fs, hfs, -, hknown, hmet⟩ := h
    refine (object_ensures hw₁ hknown).imp (fun id r₂ _ _ hu ↦ ⟨fs, hfs, ?_⟩)
      fun e he ↦ .inr (.inl he)
    rw [hmet] at hu
    exact hu

end Inference

end Silhouette
