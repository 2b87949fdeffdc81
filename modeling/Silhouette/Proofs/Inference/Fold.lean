import Silhouette.Proofs.Inference.Ensures
import Silhouette.Proofs.Inference.Members

/-!
# Folding ids folds trees

`Inference.fold` works on ids and on a registry that grows under it; `TypeTree.fold` works on trees.
Here the first is shown to do what the second says: from any well-formed registry the fold of a set
of known ids ends with an id that unfolds to the fold of their trees, or with a clash of digests
(`fold_ensures`).  Nothing else can go wrong, so the fold also ends.

The fold ends because parts are registered before what they are parts of.  With every step down the
members move to lower places of the registry (`Registry.Before`), and what is registered meanwhile
comes behind them.
-/

set_option autoImplicit false

namespace Silhouette

/-! ## Places in the registry -/

namespace Registry

/-- A scalar, or a node among the first `n`. -/
def Before (r : Registry) (n : Nat) : TypeId → Prop
  | .scalar _ => True
  | .node id => ∃ i < n, r.ids[i]? = some id

variable {r r' : Registry} {n : Nat} {id : TypeId}

theorem Before.knows (h : r.Before n id) : r.Knows id := by
  cases id with
  | scalar k => trivial
  | node m =>
    obtain ⟨i, -, hi⟩ := h
    exact mem_ids_iff.1 (List.mem_of_getElem? hi)

theorem Before.grows (h : r.Before n id) (hg : r.Grows r') : r'.Before n id := by
  cases id with
  | scalar k => trivial
  | node m =>
    obtain ⟨i, hn, hi⟩ := h
    exact ⟨i, hn, hg.getElem?_ids hi⟩

theorem Knows.before_size (h : r.Knows id) : r.Before r.size id := by
  cases id with
  | scalar k => trivial
  | node m =>
    obtain ⟨d, hd⟩ := h
    obtain ⟨i, hi, he⟩ := List.getElem_of_mem (mem_ids_of_get? hd)
    have hlen : r.ids.length = r.size := by
      rw [ids, List.length_map, size, Table.size_eq_length]
    exact ⟨i, hlen ▸ hi, List.getElem?_eq_some_iff.2 ⟨hi, he⟩⟩

theorem Before.pos (h : r.Before n id) {d : Descriptor} (hd : r.describe? id = some d) :
    0 < n := by
  obtain ⟨m, rfl, -⟩ := describe?_eq_some_iff.1 hd
  obtain ⟨i, hin, -⟩ := h
  omega

/-- Parts stand at lower places. -/
theorem Before.part (hr : r.WellFormed) (h : r.Before n id) {d : Descriptor}
    (hd : r.describe? id = some d) {c : TypeId} (hc : c ∈ d.children) : r.Before (n - 1) c := by
  obtain ⟨m, rfl, hm⟩ := describe?_eq_some_iff.1 hd
  obtain ⟨i, hin, hi⟩ := h
  cases c with
  | scalar k => trivial
  | node c =>
    obtain ⟨j, hj, hjc⟩ := hr.child_before hi hm hc
    exact ⟨j, by omega, hjc⟩

end Registry

namespace Inference

open Registry

variable {r : Registry} {members : TypeSet}

/-! ## Unions -/

theorem mergeUnion_ensures (hr : r.WellFormed) (hM : ∀ m ∈ members, r.Knows m) :
    (mergeUnion members).Ensures r
      (fun r' id ↦ r'.Unfolds id (TypeTree.join (members.image r.tree)))
      InferenceError.IsClash := by
  have halt := alternatives_image hr hM
  set flat : TypeSet := .ofList (members.toList.flatMap r.alternatives) with hflat
  have hknown : ∀ c ∈ flat, r.Knows c := by
    intro c hc
    obtain ⟨m, hm, hc⟩ := List.mem_flatMap.1 (Ordered.mem_ofList.1 hc)
    exact hr.knows_alternative (hM m hm) hc
  refine .get_bind ?_
  dsimp only
  rw [← hflat]
  split
  · next only honly =>
    have hmem := Ordered.toList_eq_singleton_iff.1 honly
    have hjoin : TypeTree.join (members.image r.tree) = r.tree only := by
      refine TypeTree.join_of_singleton (halt ▸ Ordered.toList_eq_singleton_iff.2 fun t ↦ ?_)
      simp [hmem, eq_comm]
    refine .pure hr ?_
    rw [hjoin]
    exact hr.unfolds_tree (hknown only ((hmem only).2 rfl))
  · next hne =>
    have hjoin : TypeTree.join (members.image r.tree) = .ofMembers (flat.image r.tree) := by
      rw [TypeTree.join_of_ne, halt]
      intro t ht
      rw [halt, Ordered.toList_eq_singleton_iff] at ht
      -- ids with one tree are one id, so the ids would be a single one too
      obtain ⟨m, hm, hmt⟩ := Ordered.mem_image.1 ((ht t).2 rfl)
      refine hne m (Ordered.toList_eq_singleton_iff.2 fun c ↦ ⟨fun hc ↦ ?_, fun e ↦ e ▸ hm⟩)
      refine hr.tree_inj (hknown c hc) (hknown m hm) (hmt ▸ ?_)
      exact (ht _).1 (Ordered.mem_image.2 ⟨c, hc, rfl⟩)
    refine (Ensures.intern hr (d := .union flat) hknown).imp (fun id r' _ _ h ↦ ?_) fun _ h ↦ h
    rw [hjoin]
    exact h

theorem orUndefined_ensures (hr : r.WellFormed) {id : TypeId} {t : TypeTree}
    (h : r.Unfolds id t) :
    (orUndefined id).Ensures r (fun r' id' ↦ r'.Unfolds id' (TypeTree.orUndefined t))
      InferenceError.IsClash := by
  have hM : ∀ m ∈ (.ofList [id, .scalar .undefined] : TypeSet), r.Knows m := by
    intro m hm
    rw [Ordered.mem_ofList, List.mem_cons, List.mem_singleton] at hm
    rcases hm with rfl | rfl
    · exact h.knows
    · trivial
  have himage : Ordered.image r.tree (.ofList [id, .scalar .undefined]) =
      (.ofList [t, TypeTree.undefined] : TreeSet) := by
    refine Ordered.ext_mem fun u ↦ ?_
    simp [h.tree_eq, TypeTree.undefined, eq_comm]
  have hu := mergeUnion_ensures hr hM
  rw [himage] at hu
  exact hu

/-! ## One for several -/

/-- The list over whatever a computation answers. -/
theorem array_ensures {x : Inference TypeId} {t : TypeTree}
    (hx : x.Ensures r (fun r' id ↦ r'.Unfolds id t) InferenceError.IsClash) :
    (x >>= fun id ↦ intern (.array id)).Ensures r (fun r' id ↦ r'.Unfolds id (.array t))
      InferenceError.IsClash := by
  refine hx.bind fun id r' _ hw hu ↦ ?_
  have hknown : ∀ c ∈ (Descriptor.array id).children, r'.Knows c := by
    intro c hc
    rw [List.mem_singleton.1 hc]
    exact hu.knows
  have h := Ensures.intern hw hknown
  rw [Descriptor.toTree, hu.tree_eq] at h
  exact h

section Merge

/-- Sets of ids at low places are folded as their trees are. -/
def FoldsBefore (n : Nat) (fold : TypeSet → Inference TypeId) : Prop :=
  ∀ (r : Registry) (members : TypeSet), r.WellFormed → (∀ m ∈ members, r.Before n m) →
    (fold members).Ensures r
      (fun r' id ↦ r'.Unfolds id (TypeTree.fold (members.image r.tree))) InferenceError.IsClash

variable {n : Nat} {fold : TypeSet → Inference TypeId}

theorem mergeArrays_ensures (hfold : FoldsBefore n fold) (hr : r.WellFormed) {items : List TypeId}
    (hitems : ∀ c ∈ items, r.Before n c) :
    (mergeArrays fold items).Ensures r
      (fun r' id ↦ r'.Unfolds id (.array (TypeTree.fold (Ordered.image r.tree (.ofList items)))))
      InferenceError.IsClash :=
  array_ensures (hfold r _ hr fun c hc ↦ hitems c (Ordered.mem_ofList.1 hc))

/-- The types of the fields under a key stand where the fields of all objects stand. -/
theorem types_before {shapes : List Fields}
    (hparts : ∀ fields ∈ shapes, ∀ e ∈ fields, r.Before n e.2.type) (key : String) :
    ∀ c ∈ (.ofList ((shapes.filterMap fun fields ↦ fields.get? key).map Field.type) : TypeSet),
      r.Before n c := by
  intro c hc
  obtain ⟨f, hf, rfl⟩ := List.mem_map.1 (Ordered.mem_ofList.1 hc)
  obtain ⟨fields, hfields, hget⟩ := List.mem_filterMap.1 hf
  exact hparts fields hfields (key, f) (Fields.get?_eq_some_iff.1 hget)

/-- The field under a key, in a registry that has grown since the objects were looked at. -/
theorem mergeField_ensures (hfold : FoldsBefore n fold) (hr : r.WellFormed)
    (hM : ∀ m ∈ members, r.Knows m)
    (hparts : ∀ fields ∈ members.toList.filterMap r.fields?, ∀ e ∈ fields, r.Before n e.2.type)
    (key : String) {r' : Registry} (hg : r.Grows r') (hw : r'.WellFormed) :
    (mergeField fold (members.toList.filterMap r.fields?) key).Ensures r'
      (fun r'' e ↦ e.1 = key ∧ e.2.presence = TreeSet.presenceAt (members.image r.tree) key ∧
        r''.Unfolds e.2.type (TypeTree.fold (TreeSet.typesAt (members.image r.tree) key)))
      InferenceError.IsClash := by
  have hbefore := types_before hparts key
  have htrees : Ordered.image r'.tree _ = TreeSet.typesAt (members.image r.tree) key :=
    (Ordered.image_congr fun c hc ↦ hr.tree_grows hg (hbefore c hc).knows).trans
      (typesAt_image hr hM key).symm
  refine .bind (hfold r' _ hw fun c hc ↦ (hbefore c hc).grows hg) fun id r'' _ hw' hu ↦ ?_
  refine .pure hw' ⟨rfl, ?_, htrees ▸ hu⟩
  have hpres := presenceAt_image hr hM key
  dsimp only
  split
  · next h => exact (hpres.2 h).symm
  · next h =>
    cases hp : TreeSet.presenceAt (members.image r.tree) key with
    | required => exact absurd (hpres.1 hp) h
    | optional => rfl

/-- The fields that a loop over keys has made, seen as trees. -/
theorem map_entryTree {presence : String → Presence} {type : String → TypeTree}
    {keys : List String} {fs : List (String × Field)}
    (h : List.Forall₂ (fun key e ↦ e.1 = key ∧ e.2.presence = presence key ∧
      r.Unfolds e.2.type (type key)) keys fs) :
    (fs.map (Fields.entryTree r.tree) = keys.map fun key ↦ (key, presence key, type key)) ∧
      ∀ e ∈ fs, r.Knows e.2.type := by
  induction h with
  | nil => exact ⟨rfl, fun e he ↦ absurd he List.not_mem_nil⟩
  | cons he _ ih =>
    obtain ⟨hk, hp, ht⟩ := he
    refine ⟨?_, List.forall_mem_cons.2 ⟨ht.knows, ih.2⟩⟩
    rw [List.map_cons, List.map_cons, ih.1, Fields.entryTree, hk, hp, ht.tree_eq]

theorem mergeObjects_ensures (hfold : FoldsBefore n fold) (hr : r.WellFormed)
    (hM : ∀ m ∈ members, r.Knows m)
    (hparts : ∀ fields ∈ members.toList.filterMap r.fields?, ∀ e ∈ fields, r.Before n e.2.type) :
    (mergeObjects fold (members.toList.filterMap r.fields?)).Ensures r
      (fun r' id ↦ r'.Unfolds id (TypeTree.foldObjects (members.image r.tree)))
      InferenceError.IsClash := by
  refine .bind (Ensures.mapM (fun hg h ↦ ⟨h.1, h.2.1, h.2.2.grows hg⟩) hr fun key _ r' hg hw ↦
    mergeField_ensures hfold hr hM hparts key hg hw) fun fs r' _ hw hfs ↦ ?_
  obtain ⟨htrees, hknown⟩ := map_entryTree hfs
  have hkeys : fs.map Prod.fst = (allKeys (members.toList.filterMap r.fields?)).toList := by
    have h := congrArg (List.map Prod.fst) htrees
    rwa [List.map_map, List.map_map, show (Prod.fst ∘ fun key : String ↦ (key, _)) = id from rfl,
      List.map_id] at h
  -- the keys come in their order, so the fields do
  have hlist : (.ofList fs : Fields).toList = fs := by
    have hinc : (fs.map Prod.fst).Pairwise fun a b ↦ compare a b = .lt := by
      rw [hkeys]
      exact (allKeys _).increasing
    exact Ordered.toList_ofList_of_pairwise (List.pairwise_map.1 hinc)
  have hchildren : ∀ c ∈ (Descriptor.object (.ofList fs)).children, r'.Knows c := by
    intro c hc
    rw [Descriptor.children, hlist] at hc
    obtain ⟨e, he, rfl⟩ := List.mem_map.1 hc
    exact hknown e he
  have htree : (Descriptor.object (.ofList fs)).toTree r'.tree =
      TypeTree.foldObjects (members.image r.tree) := by
    rw [Descriptor.toTree, TypeTree.ofFields, Fields.toTrees, Ordered.toList_relabel, hlist, htrees,
      TypeTree.foldObjects, keys_image hr hM]
  exact htree ▸ Ensures.intern hw hchildren

end Merge

/-! ## The fold -/

theorem firstForeign?_eq_none (hM : ∀ m ∈ members, r.Knows m) : r.firstForeign? members = none := by
  rw [firstForeign?, List.find?_eq_none]
  intro id hid
  obtain ⟨m, hm, hid⟩ := List.mem_filterMap.1 hid
  cases m with
  | scalar k => cases hid
  | node n =>
    cases hid
    obtain ⟨d, hd⟩ := hM _ hm
    simp [isForeign, contains, hd]

section Within

variable {n : Nat} (hr : r.WellFormed) (hM : ∀ m ∈ members, r.Before n m)
include hM

/-- Where some member is a list or an object, there is a place for it. -/
theorem pos_of_filterMap_ne_nil {α : Type} {part? : TypeId → Option α}
    (hp : ∀ {m a}, part? m = some a → ∃ d, r.describe? m = some d)
    (hne : members.toList.filterMap part? ≠ []) : 0 < n := by
  obtain ⟨a, ha⟩ := List.exists_mem_of_ne_nil _ hne
  obtain ⟨m, hm, hma⟩ := List.mem_filterMap.1 ha
  obtain ⟨d, hd⟩ := hp hma
  exact (hM m hm).pos hd

include hr

theorem items_before : ∀ c ∈ members.toList.filterMap r.item?, r.Before (n - 1) c := by
  intro c hc
  obtain ⟨m, hm, hc⟩ := List.mem_filterMap.1 hc
  exact (hM m hm).part hr (item?_eq_some_iff.1 hc) List.mem_cons_self

theorem fields_before : ∀ fields ∈ members.toList.filterMap r.fields?, ∀ e ∈ fields,
    r.Before (n - 1) e.2.type := by
  intro fields hfields e he
  obtain ⟨m, hm, hf⟩ := List.mem_filterMap.1 hfields
  exact (hM m hm).part hr (fields?_eq_some_iff.1 hf) (Descriptor.mem_children_object he)

end Within

/-- One height more, one place more. -/
theorem foldWithin_step {n : Nat} (hbelow : 0 < n → FoldsBefore (n - 1) (foldWithin n)) :
    FoldsBefore n (foldWithin (n + 1)) := by
  intro r members hr hM
  have hknown : ∀ m ∈ members, r.Knows m := fun m hm ↦ (hM m hm).knows
  have hitems := items_before hr hM
  have hfields := fields_before hr hM
  have harrays : members.toList.filterMap r.item? ≠ [] → FoldsBefore (n - 1) (foldWithin n) :=
    fun hne ↦ hbelow (pos_of_filterMap_ne_nil hM (fun h ↦ ⟨_, item?_eq_some_iff.1 h⟩) hne)
  have hobjects : members.toList.filterMap r.fields? ≠ [] → FoldsBefore (n - 1) (foldWithin n) :=
    fun hne ↦ hbelow (pos_of_filterMap_ne_nil hM (fun h ↦ ⟨_, fields?_eq_some_iff.1 h⟩) hne)
  have hrule := FoldRule.select_cases hr hknown
  rw [foldWithin]
  refine .get_bind ?_
  rw [firstForeign?_eq_none hknown]
  dsimp only
  generalize FoldRule.select r members = rule at hrule ⊢
  cases rule with
  | bottom =>
    dsimp only at hrule
    rw [hrule]
    exact Ensures.intern hr (d := .bottom) fun c hc ↦ absurd hc List.not_mem_nil
  | identity only =>
    obtain ⟨honly, heq⟩ := hrule
    rw [heq]
    exact .pure hr (hr.unfolds_tree (hknown only honly))
  | arrays items =>
    obtain ⟨⟨rfl, hne⟩, heq⟩ := hrule
    rw [heq, items_image hr hknown]
    exact mergeArrays_ensures (harrays hne) hr hitems
  | objects shapes =>
    obtain ⟨⟨rfl, hne⟩, heq⟩ := hrule
    rw [heq]
    exact mergeObjects_ensures (hobjects hne) hr hknown hfields
  | optionalArrays items =>
    obtain ⟨⟨rfl, hne⟩, heq⟩ := hrule
    rw [heq, items_image hr hknown]
    exact (mergeArrays_ensures (harrays hne) hr hitems).bind fun id r' _ hw hu ↦
      orUndefined_ensures hw hu
  | optionalObjects shapes =>
    obtain ⟨⟨rfl, hne⟩, heq⟩ := hrule
    rw [heq]
    exact (mergeObjects_ensures (hobjects hne) hr hknown hfields).bind fun id r' _ hw hu ↦
      orUndefined_ensures hw hu
  | mixed =>
    dsimp only at hrule
    rw [hrule]
    exact mergeUnion_ensures hr hknown

/-- Members that stand among the first `n` nodes are folded within `n + 1` steps down. -/
theorem foldWithin_ensures : ∀ n, FoldsBefore n (foldWithin (n + 1))
  | 0 => foldWithin_step fun h ↦ absurd h (Nat.lt_irrefl 0)
  | n + 1 => foldWithin_step fun _ ↦ foldWithin_ensures n

/-- **The fold of known ids is the fold of their trees**, or a clash. -/
theorem fold_ensures (hr : r.WellFormed) (hM : ∀ m ∈ members, r.Knows m) :
    (fold members).Ensures r
      (fun r' id ↦ r'.Unfolds id (TypeTree.fold (members.image r.tree)))
      InferenceError.IsClash :=
  .get_bind (foldWithin_ensures r.size r members hr fun m hm ↦ (hM m hm).before_size)

/-- A set with a node that is not registered is not folded, and nothing is registered. -/
theorem fold_foreign {id : NodeId} (h : r.firstForeign? members = some id) :
    (fold members).run r = (.error (.foreignMember id), r) := by
  rw [fold, run_get_bind, foldWithin, run_get_bind, h]
  rfl

theorem knows_of_firstForeign?_eq_none (h : r.firstForeign? members = none) :
    ∀ m ∈ members, r.Knows m := by
  intro m hm
  cases m with
  | scalar k => trivial
  | node n =>
    have hn := List.find?_eq_none.1 h n (List.mem_filterMap.2 ⟨_, hm, rfl⟩)
    have hc : r.contains n := by simpa [isForeign] using hn
    exact Option.isSome_iff_exists.1 hc

end Inference

end Silhouette
