import Silhouette.Proofs.Inference.Result
import Silhouette.Proofs.TypeTree.Bottom

/-!
# What an empty list does to the lists beside it

The elements of an empty list have the type without values, and folding that type in ought to change
nothing.  As a rule it does not: with it among them types are joined, and most sets of types would
be joined without it too.  Several lists or several objects would not; they are made one as long as
they are by themselves, or with `undefined` (`Registry.Condenses`), and the type without values
keeps them apart (`bottom_not_neutral_beside_lists`).

So whether it is neutral is a question about the others, and the answer is the same after any calls
(`bottom_neutral_unless_condensed`): for the fold itself, for an empty list among the samples, and
for a row with an empty list in one of its fields.
-/

set_option autoImplicit false

namespace Silhouette

open TypeTree

namespace Registry

/-- Several types that a fold makes one of: `undefined` apart, all are lists or all are objects. -/
def Condenses (r : Registry) (members : TypeSet) : Prop :=
  (∃ a ∈ members, ∃ b ∈ members, a ≠ b ∧ a ≠ .scalar .undefined ∧ b ≠ .scalar .undefined) ∧
    ((∀ m ∈ members, m ≠ .scalar .undefined → (r.item? m).isSome) ∨
      ∀ m ∈ members, m ≠ .scalar .undefined → (r.fields? m).isSome)

/-- Types are condensed if their trees are. -/
theorem WellFormed.condenses_image_iff {r : Registry} (hr : r.WellFormed) {members : TypeSet}
    (hM : ∀ m ∈ members, r.Knows m) :
    TreeSet.Condenses (members.image r.tree) ↔ r.Condenses members := by
  have hmem : ∀ {t : TypeTree}, t ∈ TreeSet.defined (members.image r.tree) ↔
      ∃ m ∈ members, m ≠ .scalar .undefined ∧ r.tree m = t := by
    intro t
    rw [TreeSet.mem_defined, Ordered.mem_image]
    refine ⟨?_, ?_⟩
    · rintro ⟨⟨m, hm, rfl⟩, hu⟩
      exact ⟨m, hm, fun e ↦ hu ((tree_eq_undefined_iff hr (hM m hm)).2 e), rfl⟩
    · rintro ⟨m, hm, hu, rfl⟩
      exact ⟨⟨m, hm, rfl⟩, fun e ↦ hu ((tree_eq_undefined_iff hr (hM m hm)).1 e)⟩
  have hall : ∀ {α : Type} {part? : TypeId → Option α} {p : TypeTree → Bool},
      (∀ m, r.Knows m → p (r.tree m) = (part? m).isSome) →
        ((∀ t ∈ TreeSet.defined (members.image r.tree), p t) ↔
          ∀ m ∈ members, m ≠ .scalar .undefined → (part? m).isSome) := by
    intro α part? p hp
    refine ⟨fun h m hm hu ↦ ?_, fun h t ht ↦ ?_⟩
    · rw [← hp m (hM m hm)]
      exact h _ (hmem.2 ⟨m, hm, hu, rfl⟩)
    · obtain ⟨m, hm, hu, rfl⟩ := hmem.1 ht
      rw [hp m (hM m hm)]
      exact h m hm hu
  rw [TreeSet.Condenses, Condenses, hall fun m hm ↦ hr.isArray_tree hm,
    hall fun m hm ↦ hr.isObject_tree hm]
  refine and_congr_left fun _ ↦ ⟨?_, ?_⟩
  · rintro ⟨t, ht, u, hu, htu⟩
    obtain ⟨a, ha, hau, rfl⟩ := hmem.1 ht
    obtain ⟨b, hb, hbu, rfl⟩ := hmem.1 hu
    exact ⟨a, ha, b, hb, fun e ↦ htu (e ▸ rfl), hau, hbu⟩
  · rintro ⟨a, ha, b, hb, hab, hau, hbu⟩
    exact ⟨_, hmem.2 ⟨a, ha, hau, rfl⟩, _, hmem.2 ⟨b, hb, hbu, rfl⟩, fun e ↦
      hab (hr.tree_inj (hM a ha) (hM b hb) e)⟩

theorem WellFormed.tree_bottom {r : Registry} (hr : r.WellFormed) {b : NodeId}
    (hb : r.get? b = some .bottom) : r.tree (.node b) = bottom :=
  hr.tree_node hb

end Registry

open Registry

/-! ## Samples -/

/-- The structure is about a list of objects, which may be missing, with a field of this type. -/
def Structure.RowField (s : Structure) (key : String) (type : TypeTree) : Prop :=
  ∃ item row p, s.types.Unfolds s.root (.array item) ∧ row ∈ item.alternatives ∧
    row.field? key = some (p, type)

section Samples

variable {limit : Nat} {pre post : List Json} {ts : List TypeTree} {s s' : Structure}

theorem unfolds_of_inferSamples {vs : List Json} (hts : ofItems? vs = some ts)
    (h : inferSamples limit vs = .ok s) :
    s.types.Unfolds s.root (.array (fold (.ofList ts))) := by
  rw [inferSamples_eq] at h
  obtain ⟨t, ht, hu⟩ := inferValue_unfolds h
  rw [ofJson?, hts] at ht
  cases ht
  exact hu

/-- Samples that have a structure have types. -/
theorem exists_ofItems?_of_inferSamples {vs : List Json} (h : inferSamples limit vs = .ok s) :
    ∃ ts, ofItems? vs = some ts := by
  obtain ⟨_, ts, -, hts, -⟩ := inferSamples_unfolds h
  exact ⟨ts, hts⟩

/-- An empty list among samples that are lists. -/
theorem inferSamples_emptyList (hts : ofItems? (pre ++ post) = some ts)
    (hne : ∃ t ∈ ts, t.isArray) (hall : ∀ t ∈ ts, t ≠ undefined → t.isArray)
    (h : inferSamples limit (pre ++ post) = .ok s)
    (h' : inferSamples limit (pre ++ .array [] :: post) = .ok s') :
    ∃ t t', s.types.Unfolds s.root t ∧ s'.types.Unfolds s'.root t' ∧
      (t' = t ↔ ¬ (TreeSet.items (.ofList ts)).Condenses) := by
  obtain ⟨ts', hts'⟩ := exists_ofItems?_of_inferSamples h'
  refine ⟨_, _, unfolds_of_inferSamples hts h, unfolds_of_inferSamples hts' h', ?_⟩
  have hcanon : ∀ t ∈ (.ofList ts : TreeSet), t.Canonical :=
    fun t ht ↦ canonical_ofItems? _ hts t (Ordered.mem_ofList.1 ht)
  have hlists : ∀ t ∈ TreeSet.defined (.ofList ts), t.isArray := fun t ht ↦ by
    obtain ⟨ht, hu⟩ := TreeSet.mem_defined.1 ht
    exact hall t (Ordered.mem_ofList.1 ht) hu
  obtain ⟨t, ht, harr⟩ := hne
  rw [ofList_ofItems?_insert hts hts' ofJson?_emptyList, TypeTree.array.injEq]
  exact fold_insert_emptyList_eq_iff hcanon ⟨t, Ordered.mem_ofList.2 ht, harr⟩ hlists

/-- The field under a key of the rows that a structure is about. -/
theorem rowField_of_inferSamples {vs : List Json} (hts : ofItems? vs = some ts)
    (hrows : ∀ t ∈ ts, t ≠ undefined → t.isObject) {key : String}
    (hkey : key ∈ TreeSet.keys (.ofList ts)) (h : inferSamples limit vs = .ok s) :
    s.RowField key (fold (TreeSet.typesAt (.ofList ts) key)) := by
  have hcanon : ∀ t ∈ (.ofList ts : TreeSet), t.Canonical :=
    fun t ht ↦ canonical_ofItems? _ hts t (Ordered.mem_ofList.1 ht)
  have hobjects : ∀ t ∈ TreeSet.defined (.ofList ts), t.isObject := fun t ht ↦ by
    obtain ⟨ht, hu⟩ := TreeSet.mem_defined.1 ht
    exact hrows t (Ordered.mem_ofList.1 ht) hu
  have hne : ∃ t ∈ (.ofList ts : TreeSet), t.isObject := by
    obtain ⟨t, ht, hk⟩ := TreeSet.mem_keys.1 hkey
    refine ⟨t, ht, hobjects t (TreeSet.mem_defined.2 ⟨ht, ?_⟩)⟩
    rintro rfl
    cases hk
  refine ⟨_, _, TreeSet.presenceAt (.ofList ts) key, unfolds_of_inferSamples hts h,
    foldObjects_mem_alternatives hcanon hne hobjects, ?_⟩
  rw [field?_foldObjects, if_pos hkey]

/-- A row with an empty list among rows with lists. -/
theorem inferSamples_rowWithEmptyList {members : List (String × Json)} {key : String}
    (hts : ofItems? (pre ++ post) = some ts) (hrows : ∀ t ∈ ts, t ≠ undefined → t.isObject)
    (hkind : Kind.ofValue (.object members) = .ok .object) (hn : (members.map Prod.fst).Nodup)
    (hm : Json.member? key members = some (.array []))
    (hne : ∃ t ∈ TreeSet.typesAt (.ofList ts) key, t.isArray)
    (hall : ∀ t ∈ TreeSet.typesAt (.ofList ts) key, t ≠ undefined → t.isArray)
    (h : inferSamples limit (pre ++ post) = .ok s)
    (h' : inferSamples limit (pre ++ .object members :: post) = .ok s') :
    ∃ t t', s.RowField key t ∧ s'.RowField key t' ∧
      (t' = t ↔ ¬ (TreeSet.items (TreeSet.typesAt (.ofList ts) key)).Condenses) := by
  obtain ⟨ts', hts'⟩ := exists_ofItems?_of_inferSamples h'
  -- the type of the new row
  have hmem : Json.object members ∈ pre ++ .object members :: post := by simp
  obtain ⟨row, -, hrow⟩ := exists_ofJson?_of_mem hts' hmem
  obtain ⟨fs, hfs, rfl⟩ := Option.map_eq_some_iff.1 (ofJson?_of_object hkind ▸ hrow)
  have hfield : (ofFields (.ofList fs)).field? key = some (.required, .array bottom) :=
    (field?_ofEntries? hfs hn).2 ⟨rfl, _, hm, ofJson?_emptyList⟩
  have hset := ofList_ofItems?_insert hts hts' hrow
  have hrows' : ∀ t ∈ ts', t ≠ undefined → t.isObject := by
    intro t ht hu
    rw [← Ordered.mem_ofList, hset, Ordered.mem_insert_set, Ordered.mem_ofList] at ht
    rcases ht with rfl | ht
    · rfl
    · exact hrows t ht hu
  -- what is under the key, without the new row and with it
  obtain ⟨u, hu, harr⟩ := hne
  obtain ⟨t, ht, p, hf⟩ := TreeSet.mem_typesAt.1 hu
  have hkey : key ∈ TreeSet.keys (.ofList ts) :=
    TreeSet.mem_keys.2 ⟨t, ht, mem_keys_iff.2 ⟨p, u, hf⟩⟩
  have hkey' : key ∈ TreeSet.keys (.ofList ts') := by
    rw [TreeSet.mem_keys, hset]
    exact ⟨_, Ordered.mem_insert_self _ _, mem_keys_iff.2 ⟨_, _, hfield⟩⟩
  have htypes : TreeSet.typesAt (.ofList ts') key =
      Ordered.insert (TreeSet.typesAt (.ofList ts) key) (.array bottom) := by
    rw [hset]
    refine Ordered.ext_mem fun w ↦ ?_
    rw [TreeSet.mem_typesAt, Ordered.mem_insert_set, TreeSet.mem_typesAt]
    simp only [Ordered.mem_insert_set, or_and_right, exists_or, exists_eq_left, hfield,
      Option.some.injEq, Prod.mk.injEq, exists_eq_left', @eq_comm _ (TypeTree.array bottom)]
  refine ⟨_, _, rowField_of_inferSamples hts hrows hkey h,
    rowField_of_inferSamples hts' hrows' hkey' h', ?_⟩
  have hcanon : ∀ t ∈ (.ofList ts : TreeSet), t.Canonical :=
    fun t ht ↦ canonical_ofItems? _ hts t (Ordered.mem_ofList.1 ht)
  rw [htypes]
  refine fold_insert_emptyList_eq_iff (TreeSet.canonical_typesAt hcanon key) ⟨u, hu, harr⟩ ?_
  intro w hw
  obtain ⟨hw, hnu⟩ := TreeSet.mem_defined.1 hw
  exact hall w hw hnu

end Samples

namespace Inference

/-! ## Folding -/

/-- The two folds, with the type without values and without it. -/
theorem fold_insert_bottom_run {r r₁ r₂ : Registry} {b : NodeId} {members : TypeSet} {x y : TypeId}
    (hr : Reached r) (hb : r.get? b = some .bottom) (hne : ∃ m, m ∈ members)
    (hM : ∀ m ∈ members, r.Knows m) (h : (fold members).run r = (.ok x, r₁))
    (h' : (fold (members.insert (.node b))).run r = (.ok y, r₂)) :
    (¬ r.Condenses members → y = x) ∧
      ∃ t t', r₁.Unfolds x t ∧ r₂.Unfolds y t' ∧ (t' = t ↔ ¬ r.Condenses members) := by
  have hw := hr.wellFormed
  have hinsert : ∀ m ∈ members.insert (.node b), r.Knows m := by
    intro m hm
    rcases Ordered.mem_insert_set.1 hm with rfl | hm
    · exact ⟨_, hb⟩
    · exact hM m hm
  obtain ⟨-, hw₁, hu₁⟩ := (fold_ensures hw hM).of_ok h
  obtain ⟨-, hw₂, hu₂⟩ := (fold_ensures hw hinsert).of_ok h'
  have hcanon : ∀ t ∈ members.image r.tree, t.Canonical := by
    intro t ht
    obtain ⟨m, hm, rfl⟩ := Ordered.mem_image.1 ht
    exact (hw.unfolds_tree (hM m hm)).canonical hw hr.flatUnions
  obtain ⟨m, hm⟩ := hne
  have hiff := fold_insert_bottom_eq_iff hcanon ⟨_, Ordered.mem_image.2 ⟨m, hm, rfl⟩⟩
  rw [hw.condenses_image_iff hM] at hiff
  rw [Ordered.image_insert_set, hw.tree_bottom hb] at hu₂
  refine ⟨fun hno ↦ ?_, _, _, hu₁, hu₂, hiff⟩
  rw [hiff.2 hno] at hu₂
  exact hu₂.id_unique hw₂.toIndexed hw₁.toIndexed hu₁

/-- **The type without values is neutral, unless the others are condensed.**

* After any calls, folding it in with other known types gives the id that they have without it, and
  no error but a clash; if they are several lists or several objects, `undefined` apart, the type is
  another one.
* An empty list among samples that are lists leaves the type of the samples as it was, just if the
  element types of the others are not condensed.
* A row with an empty list in a field leaves the type of that field as it was, just if the element
  types of the lists that the other rows have there are not condensed. -/
theorem bottom_neutral_unless_condensed :
    (∀ (r : Registry) (b : NodeId) (members : TypeSet), Reached r → r.get? b = some .bottom →
      (∃ m, m ∈ members) → (∀ m ∈ members, r.Knows m) → TypeId.node b ∉ members →
        (∀ members', members' = members ∨ members' = members.insert (.node b) →
          ∀ e r', (fold members').run r = (.error e, r') → e.IsClash) ∧
        ∀ x y r₁ r₂, (fold members).run r = (.ok x, r₁) →
          (fold (members.insert (.node b))).run r = (.ok y, r₂) →
            (¬ r.Condenses members → y = x) ∧
              ∃ t t', r₁.Unfolds x t ∧ r₂.Unfolds y t' ∧ (t' = t ↔ ¬ r.Condenses members)) ∧
    (∀ (limit : Nat) (pre post : List Json) (ts : List TypeTree) (s s' : Structure),
      ofItems? (pre ++ post) = some ts → (∃ t ∈ ts, t.isArray) →
      (∀ t ∈ ts, t ≠ undefined → t.isArray) → inferSamples limit (pre ++ post) = .ok s →
      inferSamples limit (pre ++ .array [] :: post) = .ok s' →
        ∃ t t', s.types.Unfolds s.root t ∧ s'.types.Unfolds s'.root t' ∧
          (t' = t ↔ ¬ (TreeSet.items (.ofList ts)).Condenses)) ∧
    ∀ (limit : Nat) (pre post : List Json) (members : List (String × Json)) (key : String)
      (ts : List TypeTree) (s s' : Structure),
      ofItems? (pre ++ post) = some ts → (∀ t ∈ ts, t ≠ undefined → t.isObject) →
      Kind.ofValue (.object members) = .ok .object → (members.map Prod.fst).Nodup →
      Json.member? key members = some (.array []) →
      (∃ t ∈ TreeSet.typesAt (.ofList ts) key, t.isArray) →
      (∀ t ∈ TreeSet.typesAt (.ofList ts) key, t ≠ undefined → t.isArray) →
      inferSamples limit (pre ++ post) = .ok s →
      inferSamples limit (pre ++ .object members :: post) = .ok s' →
        ∃ t t', s.RowField key t ∧ s'.RowField key t' ∧
          (t' = t ↔ ¬ (TreeSet.items (TreeSet.typesAt (.ofList ts) key)).Condenses) := by
  refine ⟨fun r b members hr hb hne hM _ ↦ ⟨fun members' hmem e r' he ↦ ?_,
    fun x y r₁ r₂ h h' ↦ fold_insert_bottom_run hr hb hne hM h h'⟩,
    fun limit pre post ts s s' hts hne hall h h' ↦ inferSamples_emptyList hts hne hall h h',
    fun limit pre post members key ts s s' hts hrows hkind hn hm hne hall h h' ↦
      inferSamples_rowWithEmptyList hts hrows hkind hn hm hne hall h h'⟩
  have hknown : ∀ m ∈ members', r.Knows m := by
    intro m hm
    rcases hmem with rfl | rfl
    · exact hM m hm
    · rcases Ordered.mem_insert_set.1 hm with rfl | hm
      · exact ⟨_, hb⟩
      · exact hM m hm
  exact ((fold_ensures hr.wellFormed hknown).of_error he).2.2

/-! Two examples: a list of numbers and a list of strings, which are condensed, and two types of
which one is a string, which are not. -/

def numberList : Json := .array [.number (.whole 1)]

def stringList : Json := .array [.string "a"]

/-- The registry after an empty list and the two lists have been observed. -/
def listSession : Registry :=
  ((Call.value 256 (.array [.array [], numberList, stringList])).answer.run ∅).2

theorem reached_listSession : Reached listSession := .call .start _

theorem get?_bottom_listSession : listSession.get? Descriptor.bottom.digest = some .bottom := by
  decide +kernel

def numberListId : TypeId := .node (Descriptor.array (.scalar .number)).digest

def stringListId : TypeId := .node (Descriptor.array (.scalar .string)).digest

/-- Lists are no longer merged where the type without values is among them: the fold of a list of
numbers and a list of strings is another type then, and so is that of samples that are lists of
such. -/
theorem bottom_not_neutral_beside_lists :
    (∃ (r r₁ r₂ : Registry) (b : NodeId) (members : TypeSet) (x y : TypeId),
      Reached r ∧ r.get? b = some .bottom ∧ members = .ofList [numberListId, stringListId] ∧
      (∀ m ∈ members, r.Knows m) ∧ TypeId.node b ∉ members ∧
      (fold members).run r = (.ok x, r₁) ∧
      (fold (members.insert (.node b))).run r = (.ok y, r₂) ∧ y ≠ x) ∧
    ∃ s s', inferSamples 256 [.array [numberList], .array [stringList]] = .ok s ∧
      inferSamples 256 [.array [numberList], .array [stringList], .array []] = .ok s' ∧
      s'.root ≠ s.root := by
  refine ⟨?_, ?_⟩
  · obtain ⟨members, hmembers⟩ : ∃ members : TypeSet,
      members = .ofList [numberListId, stringListId] := ⟨_, rfl⟩
    have hforeign : listSession.firstForeign? members = none := hmembers ▸ by decide +kernel
    obtain ⟨x, r₁, hx⟩ := exists_run_of_isOk
      (hmembers ▸ by decide +kernel : ((fold members).run listSession).1.isOk)
    obtain ⟨y, r₂, hy⟩ := exists_run_of_isOk (hmembers ▸ by decide +kernel :
      ((fold (members.insert (.node Descriptor.bottom.digest))).run listSession).1.isOk)
    have hne : ((fold (members.insert (.node Descriptor.bottom.digest))).run
        listSession).1.toOption ≠ ((fold members).run listSession).1.toOption :=
      hmembers ▸ by decide +kernel
    refine ⟨_, _, _, _, members, _, _, reached_listSession, get?_bottom_listSession, hmembers,
      knows_of_firstForeign?_eq_none hforeign, hmembers ▸ by decide +kernel, hx, hy, fun he ↦ ?_⟩
    rw [hx, hy, he] at hne
    exact hne rfl
  · obtain ⟨s, hs⟩ := exists_ok_of_isOk
      (by decide +kernel : (inferSamples 256 [.array [numberList], .array [stringList]]).isOk)
    obtain ⟨s', hs'⟩ := exists_ok_of_isOk (by decide +kernel :
      (inferSamples 256 [.array [numberList], .array [stringList], .array []]).isOk)
    have hne : (inferSamples 256
        [.array [numberList], .array [stringList], .array []]).toOption.map Structure.root ≠
          (inferSamples 256 [.array [numberList], .array [stringList]]).toOption.map
            Structure.root := by decide +kernel
    refine ⟨s, s', hs, hs', fun he ↦ ?_⟩
    rw [hs, hs', Except.toOption, Except.toOption, Option.map_some, Option.map_some, he] at hne
    exact hne rfl

/-- A row with one field. -/
def tagged (v : Json) : Json := .object [("tags", v)]

/-- The type of such a row. -/
def taggedTree (t : TypeTree) : TypeTree := ofFields (.ofList [("tags", .required, t)])

theorem isObject_taggedTree (t : TypeTree) : (taggedTree t).isObject := rfl

theorem ofJson?_tagged {v : Json} {t : TypeTree} (h : ofJson? v = some t) :
    ofJson? (tagged v) = some (taggedTree t) := by
  rw [tagged, ofJson?_of_object rfl, ofEntries?, ofEntries?, h]
  rfl

theorem mem_typesAt_tagged {t a b : TypeTree} :
    t ∈ TreeSet.typesAt (.ofList [taggedTree a, taggedTree b]) "tags" ↔ t = a ∨ t = b := by
  have hfield : ∀ u, (taggedTree u).field? "tags" = some (.required, u) := fun u ↦ rfl
  rw [TreeSet.mem_typesAt]
  simp [hfield, eq_comm]

theorem ofJson?_numberList : ofJson? numberList = some (.array (.scalar .number)) := by
  rw [numberList, ofJson?, ofItems?, ofItems?, ofJson?]
  exact congrArg (fun t ↦ some (TypeTree.array t)) (fold_of_singleton rfl)

theorem ofJson?_stringList : ofJson? stringList = some (.array (.scalar .string)) := by
  rw [stringList, ofJson?, ofItems?, ofItems?, ofJson?]
  exact congrArg (fun t ↦ some (TypeTree.array t)) (fold_of_singleton rfl)

/-- Beside a string, a list of numbers is as it was; and so are the elements of lists that are
numbers and strings, in samples and in the fields of rows. -/
theorem bottom_neutral_beside_scalars :
    (∃ (r r₁ r₂ : Registry) (b : NodeId) (members : TypeSet) (x : TypeId),
      Reached r ∧ r.get? b = some .bottom ∧ members = .ofList [numberListId, .scalar .string] ∧
      (fold members).run r = (.ok x, r₁) ∧
      (fold (members.insert (.node b))).run r = (.ok x, r₂)) ∧
    (∃ s s' t, inferSamples 256 [numberList, stringList] = .ok s ∧
      inferSamples 256 [numberList, .array [], stringList] = .ok s' ∧
      s.types.Unfolds s.root t ∧ s'.types.Unfolds s'.root t) ∧
    ∃ s s' t, inferSamples 256 [tagged numberList, tagged stringList] = .ok s ∧
      inferSamples 256 [tagged numberList, tagged (.array []), tagged stringList] = .ok s' ∧
      s.RowField "tags" t ∧ s'.RowField "tags" t := by
  obtain ⟨hfold, hsamples, hrows⟩ := bottom_neutral_unless_condensed
  refine ⟨?_, ?_, ?_⟩
  · obtain ⟨members, hmembers⟩ : ∃ members : TypeSet,
      members = .ofList [numberListId, .scalar .string] := ⟨_, rfl⟩
    have hstring : TypeId.scalar .string ∈ members := by simp [hmembers]
    have hknown : ∀ m ∈ members, listSession.Knows m :=
      knows_of_firstForeign?_eq_none (hmembers ▸ by decide +kernel)
    have hno : ¬ listSession.Condenses members := by
      rintro ⟨-, h | h⟩
      · exact absurd (h _ hstring (by decide)) Bool.false_ne_true
      · exact absurd (h _ hstring (by decide)) Bool.false_ne_true
    obtain ⟨x, r₁, hx⟩ := exists_run_of_isOk
      (hmembers ▸ by decide +kernel : ((fold members).run listSession).1.isOk)
    obtain ⟨y, r₂, hy⟩ := exists_run_of_isOk (hmembers ▸ by decide +kernel :
      ((fold (members.insert (.node Descriptor.bottom.digest))).run listSession).1.isOk)
    obtain ⟨-, hruns⟩ := hfold listSession _ members reached_listSession get?_bottom_listSession
      ⟨_, hstring⟩ hknown (hmembers ▸ by decide +kernel)
    obtain rfl := (hruns x y r₁ r₂ hx hy).1 hno
    exact ⟨_, _, _, _, members, _, reached_listSession, get?_bottom_listSession, hmembers, hx, hy⟩
  · obtain ⟨s, hs⟩ := exists_ok_of_isOk
      (by decide +kernel : (inferSamples 256 [numberList, stringList]).isOk)
    obtain ⟨s', hs'⟩ := exists_ok_of_isOk
      (by decide +kernel : (inferSamples 256 [numberList, .array [], stringList]).isOk)
    have hts : ofItems? ([numberList] ++ [stringList]) =
        some [.array (.scalar .number), .array (.scalar .string)] := by
      simp [ofItems?, ofJson?_numberList, ofJson?_stringList]
    have hno : ¬ (TreeSet.items (.ofList
        [.array (.scalar .number), .array (.scalar .string)])).Condenses :=
      TreeSet.not_condenses_of_mem (t := .scalar .number) (TreeSet.mem_items.2 (by simp))
        (by decide) (by decide) (by decide)
    obtain ⟨t, t', hu, hu', hsame⟩ := hsamples 256 [numberList] [stringList] _ s s' hts
      ⟨_, List.mem_cons_self, rfl⟩ (by simp [isArray, TypeTree.item?]) hs hs'
    exact ⟨s, s', t, hs, hs', hu, hsame.2 hno ▸ hu'⟩
  · obtain ⟨s, hs⟩ := exists_ok_of_isOk
      (by decide +kernel : (inferSamples 256 [tagged numberList, tagged stringList]).isOk)
    obtain ⟨s', hs'⟩ := exists_ok_of_isOk (by decide +kernel :
      (inferSamples 256 [tagged numberList, tagged (.array []), tagged stringList]).isOk)
    have hts : ofItems? ([tagged numberList] ++ [tagged stringList]) =
        some [taggedTree (.array (.scalar .number)), taggedTree (.array (.scalar .string))] := by
      simp [ofItems?, ofJson?_tagged ofJson?_numberList, ofJson?_tagged ofJson?_stringList]
    have hlist : ∀ {t : TypeTree}, t = .array (.scalar .number) ∨ t = .array (.scalar .string) →
        t.isArray := by
      rintro t (rfl | rfl)
      · rfl
      · rfl
    have hno : ¬ (TreeSet.items (TreeSet.typesAt (.ofList
        [taggedTree (.array (.scalar .number)), taggedTree (.array (.scalar .string))])
          "tags")).Condenses :=
      TreeSet.not_condenses_of_mem (t := .scalar .number)
        (TreeSet.mem_items.2 (mem_typesAt_tagged.2 (.inl rfl))) (by decide) (by decide) (by decide)
    have hobjects : ∀ t ∈ [taggedTree (.array (.scalar .number)),
        taggedTree (.array (.scalar .string))], t ≠ undefined → t.isObject := by
      simp [isObject_taggedTree]
    obtain ⟨t, t', hu, hu', hsame⟩ := hrows 256 [tagged numberList] [tagged stringList]
      [("tags", .array [])] "tags" _ s s' hts hobjects rfl (by simp) rfl
      ⟨_, mem_typesAt_tagged.2 (.inl rfl), rfl⟩ (fun t ht _ ↦ hlist (mem_typesAt_tagged.1 ht))
      hs hs'
    exact ⟨s, s', t, hs, hs', hu, hsame.2 hno ▸ hu'⟩

end Inference

end Silhouette
