import Silhouette.Proofs.Inference.Inferred
import Silhouette.Proofs.Json.Similar
import Silhouette.Proofs.TypeTree.Bottom

/-!
# Rows and their columns

Samples that are all objects are the rows of a table, and the values under one key are a column of
it (`Json.column`).  What is inferred from the rows is one object with a field for each column, and
the type of a field is what would be inferred from its column alone, by another inference with
another registry: `inferSamples_of_rows`.

For trees this is the rule for objects (`TypeTree.foldObjects`).  That rule does not ask how many
rows there are of a shape, nor whether there are several shapes at all; and the types under a key
are the types of the column (`ofItems?_column`), with equal ones counted once in both.  The ids
agree because a tree has one id (`Unfolds.id_unique`).
-/

set_option autoImplicit false

namespace Silhouette

open TypeTree

/-! ## Columns -/

namespace Json

/-- The value under a key, if a value is an object that has the key. -/
def at? (key : String) : Json → Option Json
  | .object members => member? key members
  | _ => none

/-- The values under a key of those rows that have it. -/
def column (key : String) (rows : List Json) : List Json := rows.filterMap (at? key)

theorem mem_column {key : String} {rows : List Json} {w : Json} :
    w ∈ column key rows ↔ ∃ v ∈ rows, v.at? key = some w := List.mem_filterMap

theorem exists_object_of_kind {v : Json} (h : Kind.ofValue v = .ok .object) :
    ∃ members, v = .object members := by
  cases v with
  | object members => exact ⟨members, rfl⟩
  | _ => cases h

/-- A column is nested less deep than the rows. -/
theorem nestingItems_column_le (key : String) {rows : List Json}
    (hkind : ∀ v ∈ rows, Kind.ofValue v = .ok .object) :
    nestingItems (column key rows) ≤ nestingItems rows := by
  refine nestingItems_le_iff.2 fun w hw ↦ ?_
  obtain ⟨v, hv, hat⟩ := mem_column.1 hw
  obtain ⟨members, rfl⟩ := exists_object_of_kind (hkind v hv)
  have hrow := nestingItems_le_iff.1 (Nat.le_refl _) _ hv
  rw [nesting_of_object (hkind _ hv)] at hrow
  have hvalue : w.nesting + 1 ≤ nestingEntries members :=
    nestingEntries_le_iff.1 (Nat.le_refl _) (key, w) (mem_of_lookup_eq_some hat)
  omega

end Json

open Json

/-! ## The types of rows -/

section Row

variable {v : Json} {t : TypeTree} {key : String} (hkind : Kind.ofValue v = .ok .object)
  (ht : ofJson? v = some t)
include hkind ht

theorem isObject_of_row : t.isObject := by
  obtain ⟨members, rfl⟩ := exists_object_of_kind hkind
  rw [ofJson?_of_object hkind] at ht
  obtain ⟨fs, -, rfl⟩ := Option.map_eq_some_iff.1 ht
  rfl

/-- What a row has under a key has a type. -/
theorem exists_ofJson?_of_at? {w : Json} (hw : v.at? key = some w) :
    ∃ u, ofJson? w = some u := by
  obtain ⟨members, rfl⟩ := exists_object_of_kind hkind
  rw [ofJson?_of_object hkind] at ht
  obtain ⟨fs, hfs, -⟩ := Option.map_eq_some_iff.1 ht
  exact exists_ofJson?_of_mem_members hfs (mem_of_lookup_eq_some hw)

/-- A row has a required field for each of its keys. -/
theorem field?_of_row (hd : v.Distinct) {p : Presence} {u : TypeTree} :
    t.field? key = some (p, u) ↔ p = .required ∧ ∃ w, v.at? key = some w ∧ ofJson? w = some u := by
  obtain ⟨members, rfl⟩ := exists_object_of_kind hkind
  rw [ofJson?_of_object hkind] at ht
  obtain ⟨fs, hfs, rfl⟩ := Option.map_eq_some_iff.1 ht
  exact field?_ofEntries? hfs (distinct_object_iff.1 hd).1

theorem exists_field?_of_row (hd : v.Distinct) :
    (∃ u, t.field? key = some (.required, u)) ↔ (v.at? key).isSome := by
  simp only [field?_of_row hkind ht hd, true_and, Option.isSome_iff_exists]
  refine ⟨?_, ?_⟩
  · rintro ⟨u, w, hw, -⟩
    exact ⟨w, hw⟩
  · rintro ⟨w, hw⟩
    obtain ⟨u, hu⟩ := exists_ofJson?_of_at? hkind ht hw
    exact ⟨u, w, hw, hu⟩

end Row

section Rows

variable {rows : List Json} {ts : List TypeTree} {key : String}
  (hkind : ∀ v ∈ rows, Kind.ofValue v = .ok .object) (hd : ∀ v ∈ rows, v.Distinct)
  (hts : ofItems? rows = some ts)
include hkind hts

theorem fold_of_rows (hne : rows ≠ []) : fold (.ofList ts) = foldObjects (.ofList ts) := by
  have hobject : ∀ t ∈ (.ofList ts : TreeSet), t.isObject := by
    intro t ht
    obtain ⟨v, hv, hvt⟩ := (mem_of_ofItems? hts t).1 (Ordered.mem_ofList.1 ht)
    exact isObject_of_row (hkind v hv) hvt
  have hsome : ∃ t ∈ (.ofList ts : TreeSet), t.isObject := by
    obtain ⟨v, hv⟩ := List.exists_mem_of_ne_nil _ hne
    obtain ⟨t, ht, -⟩ := exists_ofJson?_of_mem hts hv
    exact ⟨t, Ordered.mem_ofList.2 ht, hobject t (Ordered.mem_ofList.2 ht)⟩
  have hcanon : ∀ t ∈ (.ofList ts : TreeSet), t.Canonical :=
    fun t ht ↦ canonical_ofItems? _ hts t (Ordered.mem_ofList.1 ht)
  have hundef : ¬ undefined ∈ (.ofList ts : TreeSet) := fun h ↦ absurd (hobject _ h) (by decide)
  rw [fold_of_objects hcanon hsome fun t ht ↦ hobject t (TreeSet.mem_defined.1 ht).1,
    if_neg hundef]

include hd

theorem mem_keys_rows : key ∈ TreeSet.keys (.ofList ts) ↔ ∃ v ∈ rows, (v.at? key).isSome := by
  rw [TreeSet.mem_keys]
  simp only [Ordered.mem_ofList, mem_keys_iff]
  refine ⟨?_, ?_⟩
  · rintro ⟨t, ht, p, u, hf⟩
    obtain ⟨v, hv, hvt⟩ := (mem_of_ofItems? hts t).1 ht
    obtain ⟨-, w, hw, -⟩ := (field?_of_row (hkind v hv) hvt (hd v hv)).1 hf
    exact ⟨v, hv, by rw [hw]; rfl⟩
  · rintro ⟨v, hv, hat⟩
    obtain ⟨t, ht, hvt⟩ := exists_ofJson?_of_mem hts hv
    obtain ⟨u, hu⟩ := (exists_field?_of_row (hkind v hv) hvt (hd v hv)).2 hat
    exact ⟨t, ht, _, u, hu⟩

theorem presenceAt_rows :
    TreeSet.presenceAt (.ofList ts) key = .required ↔ ∀ v ∈ rows, (v.at? key).isSome := by
  rw [TreeSet.presenceAt_eq_required_iff]
  simp only [Ordered.mem_ofList]
  refine ⟨fun h v hv ↦ ?_, fun h t ht _ ↦ ?_⟩
  · obtain ⟨t, ht, hvt⟩ := exists_ofJson?_of_mem hts hv
    exact (exists_field?_of_row (hkind v hv) hvt (hd v hv)).1
      (h t ht (isObject_of_row (hkind v hv) hvt))
  · obtain ⟨v, hv, hvt⟩ := (mem_of_ofItems? hts t).1 ht
    exact (exists_field?_of_row (hkind v hv) hvt (hd v hv)).2 (h v hv)

/-- **The types under a key are the types of the column.** -/
theorem ofItems?_column (key : String) :
    ∃ us, ofItems? (column key rows) = some us ∧
      (.ofList us : TreeSet) = TreeSet.typesAt (.ofList ts) key := by
  obtain ⟨us, hus⟩ : ∃ us, ofItems? (column key rows) = some us := by
    refine exists_ofItems? fun w hw ↦ ?_
    obtain ⟨v, hv, hat⟩ := mem_column.1 hw
    obtain ⟨t, -, hvt⟩ := exists_ofJson?_of_mem hts hv
    exact exists_ofJson?_of_at? (hkind v hv) hvt hat
  refine ⟨us, hus, Ordered.ext_mem fun u ↦ ?_⟩
  rw [Ordered.mem_ofList, mem_of_ofItems? hus, TreeSet.mem_typesAt]
  simp only [Ordered.mem_ofList, mem_column]
  refine ⟨?_, ?_⟩
  · rintro ⟨w, ⟨v, hv, hat⟩, hu⟩
    obtain ⟨t, ht, hvt⟩ := exists_ofJson?_of_mem hts hv
    exact ⟨t, ht, _, (field?_of_row (hkind v hv) hvt (hd v hv)).2 ⟨rfl, w, hat, hu⟩⟩
  · rintro ⟨t, ht, p, hf⟩
    obtain ⟨v, hv, hvt⟩ := (mem_of_ofItems? hts t).1 ht
    obtain ⟨-, w, hat, hu⟩ := (field?_of_row (hkind v hv) hvt (hd v hv)).1 hf
    exact ⟨w, ⟨v, hv, hat⟩, hu⟩

end Rows

/-! ## Two inferences -/

open Registry

/-- What unfolds to one object for several is registered as that object. -/
theorem Registry.Unfolds.exists_fields_foldObjects {r : Registry} {id : TypeId} {members : TreeSet}
    (h : r.Unfolds id (foldObjects members)) :
    ∃ fields, r.describe? id = some (.object fields) ∧
      (∀ key, (∃ f, fields.get? key = some f) ↔ key ∈ members.keys) ∧
      ∀ key f, fields.get? key = some f → f.presence = members.presenceAt key ∧
        r.Unfolds f.type (fold (members.typesAt key)) := by
  obtain ⟨fs, hfs⟩ : ∃ fs : TreeFields, foldObjects members = .ofFields fs :=
    ⟨⟨_, List.pairwise_map.2 members.keys.increasing⟩, rfl⟩
  obtain ⟨fields, tree, hd, htrees, htypes⟩ := (hfs ▸ h).exists_fields
  have hget : ∀ key, ((fields.get? key).map fun f ↦ (f.presence, tree f.type)) =
      if key ∈ members.keys then some (members.presenceAt key, fold (members.typesAt key))
      else none := by
    intro key
    rw [← Fields.lookup_toTrees, htrees, ← field?_foldObjects, hfs]
    rfl
  refine ⟨fields, hd, fun key ↦ ?_, fun key f hf ↦ ?_⟩
  · have hsome := congrArg Option.isSome (hget key)
    rw [Option.isSome_map] at hsome
    rw [← Option.isSome_iff_exists, hsome]
    split <;> simp [*]
  · have hentry := hget key
    rw [hf, Option.map_some] at hentry
    split at hentry
    · obtain ⟨hp, ht⟩ := Prod.mk.inj (Option.some.inj hentry)
      exact ⟨hp, ht ▸ htypes (key, f) (Fields.get?_eq_some_iff.1 hf)⟩
    · cases hentry

variable {limit : Nat} {rows : List Json} {s : Structure}

/-- A column is accepted where the rows are, and its elements have the type of the field. -/
theorem inferSamples_column {limit' : Nat} {ts : List TypeTree} {key : String} {id : TypeId}
    (hkind : ∀ v ∈ rows, Kind.ofValue v = .ok .object) (hd : ∀ v ∈ rows, v.Distinct)
    (h : inferSamples limit rows = .ok s) (hts : ofItems? rows = some ts)
    (hid : s.types.Unfolds id (fold (TreeSet.typesAt (.ofList ts) key))) (hlimit : limit ≤ limit')
    (hclash : NoClash (inferSamples limit' (column key rows))) :
    ∃ s', inferSamples limit' (column key rows) = .ok s' ∧
      s'.types.describe? s'.root = some (.array id) := by
  obtain ⟨us, hus, hsame⟩ := ofItems?_column hkind hd hts key
  have hnest : (Json.array (column key rows)).nesting ≤ limit' := by
    rw [inferSamples_eq] at h
    obtain ⟨-, -, hrows, -⟩ := inferValue_ok h
    have hcolumn := nestingItems_column_le key hkind
    simp only [nesting] at hrows ⊢
    omega
  obtain ⟨s', hs'⟩ : ∃ s', inferSamples limit' (column key rows) = .ok s' := by
    rw [inferSamples_eq] at hclash ⊢
    exact exists_inferValue (by rw [ofJson?, hus, Option.map_some]) hnest hclash
  obtain ⟨item, us', hitem, hus', hu⟩ := inferSamples_unfolds hs'
  obtain rfl : us' = us := Option.some.inj (hus'.symm.trans hus)
  have hw := (Structure.Inferred.samples h).proper.wellFormed
  have hw' := (Structure.Inferred.samples hs').proper.wellFormed
  rw [hsame] at hu
  exact ⟨s', hs', hid.id_unique hw.toIndexed hw'.toIndexed hu ▸ hitem⟩

/-- **Rows are inferred column by column.**  Of samples that are all objects, the element type is
one object.  It has the keys that some row has, and a key is required if every row has it; and the
type of the field is the element type that is inferred from the column alone, with any limit that
the rows have passed. -/
theorem inferSamples_of_rows (hne : rows ≠ []) (hkind : ∀ v ∈ rows, Kind.ofValue v = .ok .object)
    (hd : ∀ v ∈ rows, v.Distinct) (h : inferSamples limit rows = .ok s) :
    ∃ item fields, s.types.describe? s.root = some (.array item) ∧
      s.types.describe? item = some (.object fields) ∧
      (∀ key, (∃ f, fields.get? key = some f) ↔ ∃ v ∈ rows, (v.at? key).isSome) ∧
      (∀ key f, fields.get? key = some f →
        (f.presence = .required ↔ ∀ v ∈ rows, (v.at? key).isSome)) ∧
      ∀ key f limit', fields.get? key = some f → limit ≤ limit' →
        NoClash (inferSamples limit' (column key rows)) →
          ∃ s', inferSamples limit' (column key rows) = .ok s' ∧
            s'.types.describe? s'.root = some (.array f.type) := by
  obtain ⟨item, ts, hitem, hts, hu⟩ := inferSamples_unfolds h
  rw [fold_of_rows hkind hts hne] at hu
  obtain ⟨fields, hfields, hkeys, htypes⟩ := hu.exists_fields_foldObjects
  refine ⟨item, fields, hitem, hfields, fun key ↦ ?_, fun key f hf ↦ ?_,
    fun key f limit' hf hlimit hclash ↦ ?_⟩
  · rw [hkeys, mem_keys_rows hkind hd hts]
  · rw [(htypes key f hf).1, presenceAt_rows hkind hd hts]
  · exact inferSamples_column hkind hd h hts (htypes key f hf).2 hlimit hclash

/-! An example: lists under a key that all rows have, and objects under a key that two rows have. -/

def raggedRows : List Json :=
  [.object [("tags", .array [.number (.whole 1)]), ("size", .object [("w", .number (.whole 3))])],
    .object [("tags", .array [.string "a"])],
    .object [("size", .object [("h", .null)]), ("tags", .array [])]]

theorem inferSamples_of_rows_ragged :
    ∃ (s s₁ s₂ : Structure) (item : TypeId) (fields : Fields) (tags size : Field),
      inferSamples 256 raggedRows = .ok s ∧ s.types.describe? s.root = some (.array item) ∧
      s.types.describe? item = some (.object fields) ∧
      fields.get? "tags" = some tags ∧ tags.presence = .required ∧
      inferSamples 300 (column "tags" raggedRows) = .ok s₁ ∧
      s₁.types.describe? s₁.root = some (.array tags.type) ∧
      fields.get? "size" = some size ∧ size.presence ≠ .required ∧
      inferSamples 300 (column "size" raggedRows) = .ok s₂ ∧
      s₂.types.describe? s₂.root = some (.array size.type) := by
  obtain ⟨s, hs⟩ := exists_ok_of_isOk (by decide +kernel : (inferSamples 256 raggedRows).isOk)
  obtain ⟨u₁, hu₁⟩ := exists_ok_of_isOk
    (by decide +kernel : (inferSamples 300 (column "tags" raggedRows)).isOk)
  obtain ⟨u₂, hu₂⟩ := exists_ok_of_isOk
    (by decide +kernel : (inferSamples 300 (column "size" raggedRows)).isOk)
  have hkind : ∀ v ∈ raggedRows, Kind.ofValue v = .ok .object := by
    simp only [raggedRows, List.forall_mem_cons, List.not_mem_nil, false_imp_iff, implies_true,
      and_true]
    exact ⟨rfl, rfl, rfl⟩
  have hd : ∀ v ∈ raggedRows, v.Distinct := by simp [raggedRows]
  obtain ⟨item, fields, hitem, hfields, hkeys, hpresence, htypes⟩ :=
    inferSamples_of_rows (by simp [raggedRows]) hkind hd hs
  obtain ⟨tags, htags⟩ := (hkeys "tags").2 ⟨_, List.mem_cons_self, rfl⟩
  obtain ⟨size, hsize⟩ := (hkeys "size").2 ⟨_, List.mem_cons_self, rfl⟩
  obtain ⟨s₁, hs₁, hroot₁⟩ := htypes "tags" tags 300 htags (by omega) (by rw [hu₁]; exact nofun)
  obtain ⟨s₂, hs₂, hroot₂⟩ := htypes "size" size 300 hsize (by omega) (by rw [hu₂]; exact nofun)
  refine ⟨s, s₁, s₂, item, fields, tags, size, hs, hitem, hfields, htags, ?_, hs₁, hroot₁,
    hsize, ?_, hs₂, hroot₂⟩
  · rw [hpresence "tags" tags htags]
    decide
  · rw [Ne, hpresence "size" size hsize]
    decide

end Silhouette
