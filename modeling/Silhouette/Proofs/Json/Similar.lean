import Silhouette.Proofs.Json.Distinct
import Silhouette.Proofs.Json.Put
import Silhouette.Proofs.TypeTree.OfJson

/-!
# Values that differ in order and repetition only

`Json.Similar` forgets what a sample says beyond its types: which scalar of a kind it is, in which
order and how often a list holds its elements, and in which order an object holds its keys.  It goes
all the way down, so lists may be shuffled inside lists.

Similar values have one type, and they are nested equally deep (`Similar.sameType`).
-/

set_option autoImplicit false

namespace Silhouette

namespace Json

/-- Values that differ in order and repetition only. -/
inductive Similar : Json → Json → Prop
  | scalar {v w : Json} {k : Scalar} (hv : Kind.ofValue v = .ok (.scalar k))
      (hw : Kind.ofValue w = .ok (.scalar k)) : Similar v w
  | array {vs ws : List Json} (pairs : Json → Json → Prop)
      (hpairs : ∀ v w, pairs v w → Similar v w) (hleft : ∀ v ∈ vs, ∃ w ∈ ws, pairs v w)
      (hright : ∀ w ∈ ws, ∃ v ∈ vs, pairs v w) : Similar (.array vs) (.array ws)
  | object {ms ns : List (String × Json)} (hm : Kind.ofValue (.object ms) = .ok .object)
      (hn : Kind.ofValue (.object ns) = .ok .object)
      (hkeys : ∀ key, (∃ v, member? key ms = some v) ↔ ∃ w, member? key ns = some w)
      (hvalues : ∀ key v w, member? key ms = some v → member? key ns = some w → Similar v w) :
      Similar (.object ms) (.object ns)

/-- Lists are similar if each element of one is similar to some element of the other. -/
theorem similar_array_iff {vs ws : List Json} :
    Similar (.array vs) (.array ws) ↔
      (∀ v ∈ vs, ∃ w ∈ ws, Similar v w) ∧ ∀ w ∈ ws, ∃ v ∈ vs, Similar v w := by
  refine ⟨?_, ?_⟩
  · intro h
    cases h with
    | scalar hv _ => cases hv
    | array pairs hpairs hleft hright =>
      refine ⟨fun v hv ↦ ?_, fun w hw ↦ ?_⟩
      · obtain ⟨w, hw, h⟩ := hleft v hv
        exact ⟨w, hw, hpairs v w h⟩
      · obtain ⟨v, hv, h⟩ := hright w hw
        exact ⟨v, hv, hpairs v w h⟩
  · rintro ⟨hleft, hright⟩
    exact .array Similar (fun _ _ h ↦ h) hleft hright

/-! ## Nesting -/

theorem nesting_of_scalar {v : Json} {k : Scalar} (h : Kind.ofValue v = .ok (.scalar k)) :
    v.nesting = 0 := by
  cases v with
  | array items => cases h
  | object members =>
    rw [nesting, Kind.ofValue_marker.1 h]
    rfl
  | _ => rfl

theorem nesting_of_object {members : List (String × Json)}
    (h : Kind.ofValue (.object members) = .ok .object) :
    nesting (.object members) = nestingEntries members := by
  rw [nesting, Kind.ofValue_object.1 h]
  rfl

theorem nestingItems_le_iff {vs : List Json} {n : Nat} :
    nestingItems vs ≤ n ↔ ∀ v ∈ vs, v.nesting + 1 ≤ n := by
  induction vs with
  | nil => simp [nestingItems]
  | cons v vs ih => rw [nestingItems, Nat.max_le, ih, List.forall_mem_cons]

theorem nestingEntries_le_iff {members : List (String × Json)} {n : Nat} :
    nestingEntries members ≤ n ↔ ∀ m ∈ members, m.2.nesting + 1 ≤ n := by
  induction members with
  | nil => simp [nestingEntries]
  | cons m members ih => rw [nestingEntries, Nat.max_le, ih, List.forall_mem_cons]

theorem nestingItems_le {vs ws : List Json} (h : ∀ v ∈ vs, ∃ w ∈ ws, v.nesting = w.nesting) :
    nestingItems vs ≤ nestingItems ws := by
  refine nestingItems_le_iff.2 fun v hv ↦ ?_
  obtain ⟨w, hw, he⟩ := h v hv
  rw [he]
  exact nestingItems_le_iff.1 (Nat.le_refl _) w hw

theorem nestingEntries_le {ms ns : List (String × Json)}
    (h : ∀ m ∈ ms, ∃ n ∈ ns, m.2.nesting = n.2.nesting) :
    nestingEntries ms ≤ nestingEntries ns := by
  refine nestingEntries_le_iff.2 fun m hm ↦ ?_
  obtain ⟨n, hn, he⟩ := h m hm
  rw [he]
  exact nestingEntries_le_iff.1 (Nat.le_refl _) n hn

/-! ## Types -/

open TypeTree

/-- Two values come to the same: they have one type and are nested equally deep. -/
def SameType (v w : Json) : Prop :=
  ∃ t, ofJson? v = some t ∧ ofJson? w = some t ∧ v.nesting = w.nesting

theorem sameType_array {vs ws : List Json} (hleft : ∀ v ∈ vs, ∃ w ∈ ws, SameType v w)
    (hright : ∀ w ∈ ws, ∃ v ∈ vs, SameType v w) : SameType (.array vs) (.array ws) := by
  obtain ⟨ts, hts⟩ := exists_ofItems? fun v hv ↦ by
    obtain ⟨w, -, t, ht, -⟩ := hleft v hv
    exact ⟨t, ht⟩
  obtain ⟨us, hus⟩ := exists_ofItems? fun w hw ↦ by
    obtain ⟨v, -, t, -, ht, -⟩ := hright w hw
    exact ⟨t, ht⟩
  have he : (.ofList us : TreeSet) = .ofList ts := by
    refine Ordered.ext_mem fun t ↦ ?_
    rw [Ordered.mem_ofList, Ordered.mem_ofList, mem_of_ofItems? hts, mem_of_ofItems? hus]
    refine ⟨?_, ?_⟩
    · rintro ⟨w, hw, ht⟩
      obtain ⟨v, hv, u, huv, huw, -⟩ := hright w hw
      exact ⟨v, hv, huv.trans (huw.symm.trans ht)⟩
    · rintro ⟨v, hv, ht⟩
      obtain ⟨w, hw, u, huv, huw, -⟩ := hleft v hv
      exact ⟨w, hw, huw.trans (huv.symm.trans ht)⟩
  refine ⟨.array (fold (.ofList ts)), ?_, ?_, Nat.le_antisymm (nestingItems_le fun v hv ↦ ?_)
    (nestingItems_le fun w hw ↦ ?_)⟩
  · rw [ofJson?, hts]
    rfl
  · rw [ofJson?, hus, ← he]
    rfl
  · obtain ⟨w, hw, -, -, -, hn⟩ := hleft v hv
    exact ⟨w, hw, hn⟩
  · obtain ⟨v, hv, -, -, -, hn⟩ := hright w hw
    exact ⟨v, hv, hn.symm⟩

theorem sameType_object {ms ns : List (String × Json)}
    (hm : Kind.ofValue (.object ms) = .ok .object) (hn : Kind.ofValue (.object ns) = .ok .object)
    (hms : (ms.map Prod.fst).Nodup) (hns : (ns.map Prod.fst).Nodup)
    (hleft : ∀ m ∈ ms, ∃ w, (m.1, w) ∈ ns ∧ SameType m.2 w)
    (hright : ∀ n ∈ ns, ∃ v, (n.1, v) ∈ ms ∧ SameType v n.2) :
    SameType (.object ms) (.object ns) := by
  obtain ⟨fs, hfs⟩ := exists_ofEntries? fun m hm ↦ by
    obtain ⟨w, -, t, ht, -⟩ := hleft m hm
    exact ⟨t, ht⟩
  obtain ⟨gs, hgs⟩ := exists_ofEntries? fun n hn ↦ by
    obtain ⟨v, -, t, -, ht, -⟩ := hright n hn
    exact ⟨t, ht⟩
  have hnodup : ∀ {members fs}, ofEntries? members = some fs → (members.map Prod.fst).Nodup →
      (fs.map fun e ↦ e.1).Nodup := by
    intro members fs hfs hn
    rw [← keys_of_ofEntries? hfs] at hn
    exact hn
  have he : (.ofList gs : TreeFields) = .ofList fs := by
    refine Ordered.ext_mem fun ⟨key, p, t⟩ ↦ ?_
    rw [Ordered.mem_ofList_of_nodup (hnodup hgs hns), Ordered.mem_ofList_of_nodup (hnodup hfs hms),
      mem_of_ofEntries? hfs, mem_of_ofEntries? hgs]
    refine and_congr_right fun _ ↦ ?_
    refine ⟨?_, ?_⟩
    · rintro ⟨w, hw, ht⟩
      obtain ⟨v, hv, u, huv, huw, -⟩ := hright _ hw
      exact ⟨v, hv, huv.trans (huw.symm.trans ht)⟩
    · rintro ⟨v, hv, ht⟩
      obtain ⟨w, hw, u, huv, huw, -⟩ := hleft _ hv
      exact ⟨w, hw, huw.trans (huv.symm.trans ht)⟩
  refine ⟨ofFields (.ofList fs), ?_, ?_, ?_⟩
  · rw [ofJson?_of_object hm, hfs]
    rfl
  · rw [ofJson?_of_object hn, hgs, ← he]
    rfl
  · rw [nesting_of_object hm, nesting_of_object hn]
    refine Nat.le_antisymm (nestingEntries_le fun m hm ↦ ?_) (nestingEntries_le fun n hn ↦ ?_)
    · obtain ⟨w, hw, -, -, -, he⟩ := hleft m hm
      exact ⟨_, hw, he⟩
    · obtain ⟨v, hv, -, -, -, he⟩ := hright n hn
      exact ⟨_, hv, he.symm⟩

/-- **Similar values have one type.** -/
theorem Similar.sameType {v w : Json} (h : Similar v w) (hv : v.Distinct) (hw : w.Distinct) :
    SameType v w := by
  induction h with
  | @scalar v w k hkv hkw =>
    refine ⟨.scalar k, ofJson?_of_scalar hkv, ofJson?_of_scalar hkw, ?_⟩
    rw [nesting_of_scalar hkv, nesting_of_scalar hkw]
  | array pairs hpairs hleft hright ih =>
    rw [distinct_array_iff] at hv hw
    refine sameType_array (fun v hvs ↦ ?_) fun w hws ↦ ?_
    · obtain ⟨w, hws, h⟩ := hleft v hvs
      exact ⟨w, hws, ih v w h (hv v hvs) (hw w hws)⟩
    · obtain ⟨v, hvs, h⟩ := hright w hws
      exact ⟨v, hvs, ih v w h (hv v hvs) (hw w hws)⟩
  | object hm hn hkeys hvalues ih =>
    rw [distinct_object_iff] at hv hw
    obtain ⟨hms, hv⟩ := hv
    obtain ⟨hns, hw⟩ := hw
    have hmem := fun {key v} ↦ (lookup_eq_some_iff_mem hms : _ ↔ (key, v) ∈ _)
    have hmem' := fun {key v} ↦ (lookup_eq_some_iff_mem hns : _ ↔ (key, v) ∈ _)
    refine sameType_object hm hn hms hns (fun m hm ↦ ?_) fun n hn ↦ ?_
    · have hv' : member? m.1 _ = some m.2 := hmem.2 hm
      obtain ⟨w, hw'⟩ := (hkeys m.1).1 ⟨_, hv'⟩
      exact ⟨w, hmem'.1 hw', ih m.1 m.2 w hv' hw' (hv m hm) (hw _ (hmem'.1 hw'))⟩
    · have hw' : member? n.1 _ = some n.2 := hmem'.2 hn
      obtain ⟨v, hv'⟩ := (hkeys n.1).2 ⟨_, hw'⟩
      exact ⟨v, hmem.1 hv', ih n.1 v n.2 hv' hw' (hv _ (hmem.1 hv')) (hw n hn)⟩

end Json

end Silhouette
