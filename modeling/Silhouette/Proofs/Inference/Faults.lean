import Silhouette.Proofs.Inference.Observe
import Silhouette.Proofs.Json.Sites

/-!
# What is wrong with a sample

Observing a sample looks at its sites in document order.  It succeeds only if all of them are in
order, and it fails with what is wrong at the first one that is not, or with a clash of digests
(`observeAt_faults`).  The proof goes along the walk, like that of `observeAt_ensures`; from there
comes what has to be known of the registry to fold and to intern without another error.

As long as no site lies too deep, the limit plays no part (`observeAt_limit`).
-/

set_option autoImplicit false

namespace Silhouette

open Json

namespace Inference

open Registry

variable {limit : Nat} {r : Registry}

/-! ## Pieces -/

theorem checkDepth_faults (hr : r.WellFormed) (p : Site) :
    (checkDepth limit p.path).Ensures r (fun _ _ ↦ p.path.depth ≤ limit) (p.Faulty limit) := by
  rw [checkDepth]
  split
  · next h => exact .throw hr (.tooDeep h)
  · next h => exact .pure hr (Nat.le_of_not_lt h)

/-- A clash of digests, or what is wrong at the first of some sites. -/
def ClashOr (limit : Nat) (ps : List Site) (e : InferenceError) : Prop :=
  e.IsClash ∨ FirstFault limit ps e

/-- What comes after the depth of a site has been looked at. -/
theorem checkDepth_bind_faults {β : Type} {x : Inference β} {p : Site} {ps : List Site}
    {post : Registry → β → Prop} (hr : r.WellFormed)
    (hx : ∀ r', r'.WellFormed → p.path.depth ≤ limit →
      x.Ensures r' post (ClashOr limit (p :: ps))) :
    (checkDepth limit p.path >>= fun _ ↦ x).Ensures r post (ClashOr limit (p :: ps)) :=
  .bind ((checkDepth_faults hr p).imp (fun _ _ _ _ h ↦ h) fun _ he ↦ .inr (.head he))
    fun _ r' _ hw hd ↦ hx r' hw hd

/-- A site that is all there is. -/
theorem single_faults (hr : r.WellFormed) (path : Path) (v : Json) {k : Scalar}
    (hk : Kind.ofValue v = .ok (.scalar k)) :
    (checkDepth limit path >>= fun _ ↦ pure (TypeId.scalar k)).Ensures r
      (fun _ _ ↦ ∀ p ∈ [(⟨path, v⟩ : Site)], p.Fine limit) (ClashOr limit [⟨path, v⟩]) :=
  checkDepth_bind_faults (p := ⟨path, v⟩) hr fun _ hw hd ↦
    .pure hw (List.forall_mem_singleton.2 (Site.fine_of_kind hd hk))

theorem sites_of_object {path : Path} {members : List (String × Json)}
    (h : Marker.read? members = none) :
    sites path (.object members) = ⟨path, .object members⟩ :: sitesOfMembers path members := by
  rw [sites, Kind.ofValue_object.2 h]

theorem sites_of_marker {path : Path} {members : List (String × Json)}
    {answer : Except Marker.Fault Scalar} (h : Marker.read? members = some answer) :
    sites path (.object members) = [⟨path, .object members⟩] := by
  rw [sites, Kind.ofValue, h]
  cases answer with
  | ok k => rfl
  | error fault => rfl

/-! ## The walk through a sample -/

mutual

/-- **A sample is accepted if all sites are in order**, and it fails at the first one that is
not. -/
theorem observeAt_faults : ∀ (v : Json) (path : Path) {r : Registry}, r.WellFormed →
    (observeAt limit path v).Ensures r (fun _ _ ↦ ∀ p ∈ sites path v, p.Fine limit)
      (ClashOr limit (sites path v))
  | .null, path, _, hr => single_faults hr path .null rfl
  | .bool b, path, _, hr => single_faults hr path (.bool b) rfl
  | .number n, path, _, hr => single_faults hr path (.number n) rfl
  | .string s, path, _, hr => single_faults hr path (.string s) rfl
  | .array items, path, _, hr => by
    rw [sites]
    refine checkDepth_bind_faults (p := ⟨path, .array items⟩) hr fun r₁ hw₁ hd ↦ ?_
    have hempty : ∀ m ∈ (∅ : TypeSet), r₁.Knows m := fun m hm ↦ absurd hm (Ordered.not_mem_empty m)
    have hfine : Site.Fine limit ⟨path, .array items⟩ := Site.fine_of_kind hd rfl
    refine .bind (((observeItems_ensures items path 0 hd hw₁ hempty).and
      (observeItems_faults items path 0 hd hw₁ hempty)).imp (fun _ _ _ _ h ↦ h)
        fun e he ↦ he.2.imp_right fun h ↦ h.cons hfine) fun met r₂ _ hw₂ h ↦ ?_
    obtain ⟨⟨_, -, -, hknown, -⟩, hitems⟩ := h
    exact (closeList_ensures hw₂ hknown).imp
      (fun _ _ _ _ _ ↦ List.forall_mem_cons.2 ⟨hfine, hitems⟩) fun _ he ↦ .inl he
  | .object members, path, _, hr => by
    cases hm : Marker.read? members with
    | some answer =>
      rw [sites_of_marker hm]
      refine checkDepth_bind_faults (p := ⟨path, .object members⟩) hr fun r₁ hw₁ hd ↦ ?_
      rw [hm]
      cases answer with
      | ok k =>
        exact .pure hw₁ (List.forall_mem_singleton.2
          (Site.fine_of_kind hd (Kind.ofValue_marker.2 hm)))
      | error fault =>
        refine .throw hw₁ (.inr (.head (.malformed hd ?_)))
        rw [Kind.ofValue, hm]
        rfl
    | none =>
      rw [sites_of_object hm]
      refine checkDepth_bind_faults (p := ⟨path, .object members⟩) hr fun r₁ hw₁ hd ↦ ?_
      rw [hm]
      have hempty : ∀ e ∈ (∅ : Fields), r₁.Knows e.2.type :=
        fun e he ↦ absurd he (Ordered.not_mem_empty e)
      have hfine : Site.Fine limit ⟨path, .object members⟩ :=
        Site.fine_of_kind hd (Kind.ofValue_object.2 hm)
      refine .bind (((observeMembers_ensures members path hd hw₁ hempty).and
        (observeMembers_faults members path hd hw₁ hempty)).imp (fun _ _ _ _ h ↦ h)
          fun e he ↦ he.2.imp_right fun h ↦ h.cons hfine) fun met r₂ _ hw₂ h ↦ ?_
      obtain ⟨⟨_, -, -, hknown, -⟩, hmembers⟩ := h
      exact (object_ensures hw₂ hknown).imp
        (fun _ _ _ _ _ ↦ List.forall_mem_cons.2 ⟨hfine, hmembers⟩) fun _ he ↦ .inl he

theorem observeItems_faults : ∀ (vs : List Json) (path : Path) (index : Nat) {r : Registry}
    {met : TypeSet}, path.depth ≤ limit → r.WellFormed → (∀ m ∈ met, r.Knows m) →
    (observeItems limit path index met vs).Ensures r
      (fun _ _ ↦ ∀ p ∈ sitesOfItems path index vs, p.Fine limit)
      (ClashOr limit (sitesOfItems path index vs))
  | [], _, _, _, _, _, hr, _ => .pure hr fun _ hp ↦ absurd hp List.not_mem_nil
  | v :: vs, path, index, r, met, hd, hr, hM => by
    rw [sitesOfItems]
    refine .bind (((observeAt_ensures v (path.push (.index index)) hr).and
      (observeAt_faults v (path.push (.index index)) hr)).imp (fun _ _ _ _ h ↦ h)
        fun e he ↦ he.2.imp_right FirstFault.append_left) fun id r₁ hg₁ hw₁ h ↦ ?_
    obtain ⟨⟨t, -, -, hu⟩, hv⟩ := h
    exact (observeItems_faults vs path (index + 1) hd hw₁ (image_insert hr hg₁ hM hu).1).imp
      (fun _ _ _ _ hvs ↦ List.forall_mem_append.2 ⟨hv, hvs⟩)
      fun e he ↦ he.imp_right fun h ↦ h.append_right hv

theorem observeMembers_faults : ∀ (members : List (String × Json)) (path : Path) {r : Registry}
    {met : Fields}, path.depth ≤ limit → r.WellFormed → (∀ e ∈ met, r.Knows e.2.type) →
    (observeMembers limit path met members).Ensures r
      (fun _ _ ↦ ∀ p ∈ sitesOfMembers path members, p.Fine limit)
      (ClashOr limit (sitesOfMembers path members))
  | [], _, _, _, _, hr, _ => .pure hr fun _ hp ↦ absurd hp List.not_mem_nil
  | (key, v) :: rest, path, r, met, hd, hr, hM => by
    rw [sitesOfMembers]
    refine .bind (((observeAt_ensures v (path.push (.key key)) hr).and
      (observeAt_faults v (path.push (.key key)) hr)).imp (fun _ _ _ _ h ↦ h)
        fun e he ↦ he.2.imp_right FirstFault.append_left) fun id r₁ hg₁ hw₁ h ↦ ?_
    obtain ⟨⟨t, -, -, hu⟩, hv⟩ := h
    exact (observeMembers_faults rest path hd hw₁ (toTrees_set_grows hr hg₁ hM key hu).1).imp
      (fun _ _ _ _ hvs ↦ List.forall_mem_append.2 ⟨hv, hvs⟩)
      fun e he ↦ he.imp_right fun h ↦ h.append_right hv

end

theorem observe_faults (hr : r.WellFormed) (v : Json) :
    (observe limit v).Ensures r (fun _ _ ↦ ∀ p ∈ sites .root v, p.Fine limit)
      (ClashOr limit (sites .root v)) :=
  observeAt_faults v .root hr

theorem observeQuery_faults (hr : r.WellFormed) {query : String} (hq : Text.isQueryId query)
    (results : List Json) :
    (observeQuery limit query results).Ensures r
      (fun _ _ ↦ ∀ p ∈ sitesOfMembers .root (resultMembers query results), p.Fine limit)
      (ClashOr limit (sitesOfMembers .root (resultMembers query results))) := by
  have hempty : ∀ e ∈ (∅ : Fields), r.Knows e.2.type :=
    fun e he ↦ absurd he (Ordered.not_mem_empty e)
  rw [observeQuery, if_neg (by simp [hq])]
  refine .bind (((observeMembers_ensures _ .root (Nat.zero_le limit) hr hempty).and
    (observeMembers_faults _ .root (Nat.zero_le limit) hr hempty)).imp (fun _ _ _ _ h ↦ h)
      fun e he ↦ he.2) fun met r₁ _ hw₁ h ↦ ?_
  obtain ⟨⟨_, -, -, hknown, -⟩, hmembers⟩ := h
  exact (object_ensures hw₁ hknown).imp (fun _ _ _ _ _ ↦ hmembers) fun _ he ↦ .inl he

/-! ## The limit -/

section Limit

variable {limit' : Nat}

theorem checkDepth_of_le {path : Path} (h : path.depth ≤ limit) :
    checkDepth limit path = pure () := by
  rw [checkDepth, if_neg (Nat.not_lt.2 h)]

/-- Two limits that no site exceeds. -/
def BothCover (limit limit' : Nat) (ps : List Site) : Prop :=
  ∀ p ∈ ps, p.path.depth ≤ limit ∧ p.path.depth ≤ limit'

theorem BothCover.append {ps qs : List Site} (h : BothCover limit limit' (ps ++ qs)) :
    BothCover limit limit' ps ∧ BothCover limit limit' qs :=
  List.forall_mem_append.1 h

/-- Where the depth is no matter, what follows decides. -/
theorem checkDepth_bind_limit {β : Type} {x y : Inference β} {p : Site} {ps : List Site}
    (h : BothCover limit limit' (p :: ps)) (hxy : BothCover limit limit' ps → x = y) :
    (checkDepth limit p.path >>= fun _ ↦ x) = checkDepth limit' p.path >>= fun _ ↦ y := by
  obtain ⟨⟨hd, hd'⟩, hps⟩ := List.forall_mem_cons.1 h
  rw [checkDepth_of_le hd, checkDepth_of_le hd', hxy hps]

mutual

/-- **Limits that no site exceeds are all the same.** -/
theorem observeAt_limit : ∀ (v : Json) (path : Path), BothCover limit limit' (sites path v) →
    observeAt limit path v = observeAt limit' path v
  | .null, path, h => checkDepth_bind_limit (p := ⟨path, .null⟩) h fun _ ↦ rfl
  | .bool b, path, h => checkDepth_bind_limit (p := ⟨path, .bool b⟩) h fun _ ↦ rfl
  | .number n, path, h => checkDepth_bind_limit (p := ⟨path, .number n⟩) h fun _ ↦ rfl
  | .string s, path, h => checkDepth_bind_limit (p := ⟨path, .string s⟩) h fun _ ↦ rfl
  | .array items, path, h => by
    rw [sites] at h
    refine checkDepth_bind_limit (p := ⟨path, .array items⟩) h fun h ↦ ?_
    rw [observeItems_limit items path 0 ∅ h]
  | .object members, path, h => by
    cases hm : Marker.read? members with
    | some answer =>
      rw [sites_of_marker hm] at h
      refine checkDepth_bind_limit (p := ⟨path, .object members⟩) h fun _ ↦ ?_
      rw [hm]
      cases answer with
      | ok k => rfl
      | error fault => rfl
    | none =>
      rw [sites_of_object hm] at h
      refine checkDepth_bind_limit (p := ⟨path, .object members⟩) h fun h ↦ ?_
      rw [observeMembers_limit members path ∅ h]

theorem observeItems_limit : ∀ (vs : List Json) (path : Path) (index : Nat) (met : TypeSet),
    BothCover limit limit' (sitesOfItems path index vs) →
    observeItems limit path index met vs = observeItems limit' path index met vs
  | [], _, _, _, _ => rfl
  | v :: vs, path, index, met, h => by
    rw [sitesOfItems] at h
    rw [observeItems, observeItems, observeAt_limit v _ h.append.1]
    exact bind_congr fun id ↦ observeItems_limit vs path (index + 1) _ h.append.2

theorem observeMembers_limit : ∀ (members : List (String × Json)) (path : Path) (met : Fields),
    BothCover limit limit' (sitesOfMembers path members) →
    observeMembers limit path met members = observeMembers limit' path met members
  | [], _, _, _ => rfl
  | (key, v) :: rest, path, met, h => by
    rw [sitesOfMembers] at h
    rw [observeMembers, observeMembers, observeAt_limit v _ h.append.1]
    exact bind_congr fun id ↦ observeMembers_limit rest path _ h.append.2

end

theorem observeQuery_limit {query : String} {results : List Json}
    (h : BothCover limit limit' (sitesOfMembers .root (resultMembers query results))) :
    observeQuery limit query results = observeQuery limit' query results := by
  rw [observeQuery, observeQuery]
  have hmembers := observeMembers_limit _ .root ∅ h
  rw [resultMembers] at hmembers
  simp only [hmembers]

end Limit

end Inference

end Silhouette
