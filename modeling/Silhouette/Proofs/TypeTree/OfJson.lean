import Silhouette.Proofs.TypeTree.Fold
import Silhouette.Sample.Kind

/-!
# The type tree of a value

`TypeTree.ofJson?` is the type of a value by the rules alone: a scalar is its kind, an object has
its fields as required, and a list is the list over the fold of the types of its elements.  A value
has no type if there is a malformed marker somewhere in it.

`Json.nesting` is the number of steps that lead to the deepest place that is looked at; the inside
of a marker is not.
-/

set_option autoImplicit false

namespace Silhouette

namespace TypeTree

mutual

/-- The type of a value. -/
def ofJson? : Json → Option TypeTree
  | .null => some (.scalar .null)
  | .bool _ => some (.scalar .boolean)
  | .number _ => some (.scalar .number)
  | .string _ => some (.scalar .string)
  | .array items => (ofItems? items).map fun ts ↦ .array (fold (.ofList ts))
  | .object members =>
    match Marker.read? members with
    | some (.ok kind) => some (.scalar kind)
    | some (.error _) => none
    | none => (ofEntries? members).map fun fs ↦ ofFields (.ofList fs)

/-- The types of the elements of a list. -/
def ofItems? : List Json → Option (List TypeTree)
  | [] => some []
  | v :: rest => (ofJson? v).bind fun t ↦ (ofItems? rest).map (t :: ·)

/-- The fields for the members of an object. -/
def ofEntries? : List (String × Json) → Option (List (String × Presence × TypeTree))
  | [] => some []
  | (key, v) :: rest =>
    (ofJson? v).bind fun t ↦ (ofEntries? rest).map ((key, Presence.required, t) :: ·)

end

end TypeTree

namespace Json

mutual

/-- How many steps lead to the deepest place of a value that is looked at. -/
def nesting : Json → Nat
  | .array items => nestingItems items
  | .object members => if (Marker.read? members).isSome then 0 else nestingEntries members
  | _ => 0

def nestingItems : List Json → Nat
  | [] => 0
  | v :: rest => max (nesting v + 1) (nestingItems rest)

def nestingEntries : List (String × Json) → Nat
  | [] => 0
  | (_, v) :: rest => max (nesting v + 1) (nestingEntries rest)

end

end Json

/-! ## Kinds -/

/-- An object is an object or a marker. -/
theorem Kind.ofValue_object {members : List (String × Json)} :
    Kind.ofValue (.object members) = .ok .object ↔ Marker.read? members = none := by
  rw [Kind.ofValue]
  cases Marker.read? members with
  | none => simp
  | some answer => cases answer <;> simp [Except.map]

theorem Kind.ofValue_marker {members : List (String × Json)} {k : Scalar} :
    Kind.ofValue (.object members) = .ok (.scalar k) ↔ Marker.read? members = some (.ok k) := by
  rw [Kind.ofValue]
  cases Marker.read? members with
  | none => simp
  | some answer => cases answer <;> simp [Except.map]

namespace TypeTree

theorem ofJson?_of_scalar {v : Json} {k : Scalar} (h : Kind.ofValue v = .ok (.scalar k)) :
    ofJson? v = some (.scalar k) := by
  cases v with
  | array items => cases h
  | object members =>
    rw [ofJson?, Kind.ofValue_marker.1 h]
  | _ => cases h; rfl

theorem ofJson?_of_object {members : List (String × Json)}
    (h : Kind.ofValue (.object members) = .ok .object) :
    ofJson? (.object members) = (ofEntries? members).map fun fs ↦ ofFields (.ofList fs) := by
  rw [ofJson?, Kind.ofValue_object.1 h]

/-- **What the type of a value says about the value.** -/
theorem ofJson?_cases {v : Json} {t : TypeTree} (h : ofJson? v = some t) :
    (∃ k, Kind.ofValue v = .ok (.scalar k) ∧ t = .scalar k) ∨
    (∃ items ts, v = .array items ∧ ofItems? items = some ts ∧ t = .array (fold (.ofList ts))) ∨
    (∃ members fs, v = .object members ∧ Kind.ofValue v = .ok .object ∧
      ofEntries? members = some fs ∧ t = ofFields (.ofList fs)) := by
  cases v with
  | array items =>
    obtain ⟨ts, hts, rfl⟩ := Option.map_eq_some_iff.1 h
    exact .inr (.inl ⟨items, ts, rfl, hts, rfl⟩)
  | object members =>
    rw [ofJson?] at h
    split at h
    · next k hk => cases h; exact .inl ⟨k, Kind.ofValue_marker.2 hk, rfl⟩
    · cases h
    · next hn =>
      obtain ⟨fs, hfs, rfl⟩ := Option.map_eq_some_iff.1 h
      exact .inr (.inr ⟨members, fs, rfl, Kind.ofValue_object.2 hn, hfs, rfl⟩)
  | _ => cases h; exact .inl ⟨_, rfl, rfl⟩

/-! ## Elements and members -/

theorem mem_of_ofItems? {vs : List Json} {ts : List TypeTree} (h : ofItems? vs = some ts)
    (t : TypeTree) : t ∈ ts ↔ ∃ v ∈ vs, ofJson? v = some t := by
  induction vs generalizing ts with
  | nil =>
    cases h
    simp
  | cons v vs ih =>
    obtain ⟨u, hu, h⟩ := Option.bind_eq_some_iff.1 h
    obtain ⟨us, hus, rfl⟩ := Option.map_eq_some_iff.1 h
    rw [List.mem_cons, ih hus, List.exists_mem_cons_iff, hu, Option.some.injEq, @eq_comm _ u t]

/-- Every element of a list that has a type has one. -/
theorem exists_ofJson?_of_mem {vs : List Json} {ts : List TypeTree} (h : ofItems? vs = some ts)
    {v : Json} (hv : v ∈ vs) : ∃ t ∈ ts, ofJson? v = some t := by
  suffices ht : ∃ t, ofJson? v = some t by
    obtain ⟨t, ht⟩ := ht
    exact ⟨t, (mem_of_ofItems? h t).2 ⟨v, hv, ht⟩, ht⟩
  induction vs generalizing ts with
  | nil => cases hv
  | cons w vs ih =>
    obtain ⟨u, hu, h⟩ := Option.bind_eq_some_iff.1 h
    obtain ⟨us, hus, -⟩ := Option.map_eq_some_iff.1 h
    rcases List.mem_cons.1 hv with rfl | hv
    · exact ⟨u, hu⟩
    · exact ih hus hv

theorem exists_ofItems? {vs : List Json} (h : ∀ v ∈ vs, ∃ t, ofJson? v = some t) :
    ∃ ts, ofItems? vs = some ts := by
  induction vs with
  | nil => exact ⟨[], rfl⟩
  | cons v vs ih =>
    obtain ⟨t, ht⟩ := h v List.mem_cons_self
    obtain ⟨ts, hts⟩ := ih fun w hw ↦ h w (List.mem_cons_of_mem _ hw)
    exact ⟨t :: ts, by rw [ofItems?, ht, hts]; rfl⟩

/-- With one element more there is its type more. -/
theorem ofList_ofItems?_insert {pre post : List Json} {ts ts' : List TypeTree} {v : Json}
    {t : TypeTree} (h : ofItems? (pre ++ post) = some ts)
    (h' : ofItems? (pre ++ v :: post) = some ts') (hv : ofJson? v = some t) :
    (.ofList ts' : TreeSet) = Ordered.insert (.ofList ts) t := by
  refine Ordered.ext_mem fun u ↦ ?_
  rw [Ordered.mem_ofList, mem_of_ofItems? h', Ordered.mem_insert_set, Ordered.mem_ofList,
    mem_of_ofItems? h]
  simp only [List.mem_append, List.mem_cons]
  refine ⟨?_, ?_⟩
  · rintro ⟨w, hw | rfl | hw, hu⟩
    · exact .inr ⟨w, .inl hw, hu⟩
    · exact .inl (Option.some.inj (hu.symm.trans hv))
    · exact .inr ⟨w, .inr hw, hu⟩
  · rintro (rfl | ⟨w, hw | hw, hu⟩)
    · exact ⟨v, .inr (.inl rfl), hv⟩
    · exact ⟨w, .inl hw, hu⟩
    · exact ⟨w, .inr (.inr hw), hu⟩

theorem ofJson?_emptyList : ofJson? (.array []) = some (.array bottom) := by
  rw [ofJson?, ofItems?, Option.map_some, fold_of_nil rfl]

theorem mem_of_ofEntries? {members : List (String × Json)}
    {fs : List (String × Presence × TypeTree)} (h : ofEntries? members = some fs)
    (key : String) (p : Presence) (t : TypeTree) :
    (key, p, t) ∈ fs ↔ p = .required ∧ ∃ v, (key, v) ∈ members ∧ ofJson? v = some t := by
  induction members generalizing fs with
  | nil =>
    cases h
    simp
  | cons m members ih =>
    obtain ⟨k, v⟩ := m
    obtain ⟨u, hu, h⟩ := Option.bind_eq_some_iff.1 h
    obtain ⟨us, hus, rfl⟩ := Option.map_eq_some_iff.1 h
    rw [List.mem_cons, ih hus, Prod.mk.injEq, Prod.mk.injEq]
    refine ⟨?_, ?_⟩
    · rintro (⟨rfl, rfl, rfl⟩ | ⟨rfl, w, hw, ht⟩)
      · exact ⟨rfl, v, List.mem_cons_self, hu⟩
      · exact ⟨rfl, w, List.mem_cons_of_mem _ hw, ht⟩
    · rintro ⟨rfl, w, hw, ht⟩
      rcases List.mem_cons.1 hw with he | hw
      · cases he
        exact .inl ⟨rfl, rfl, Option.some.inj (ht.symm.trans hu)⟩
      · exact .inr ⟨rfl, w, hw, ht⟩

/-- Every member of an object that has a type has one. -/
theorem exists_ofJson?_of_mem_members {members : List (String × Json)}
    {fs : List (String × Presence × TypeTree)} (h : ofEntries? members = some fs)
    {m : String × Json} (hm : m ∈ members) : ∃ t, ofJson? m.2 = some t := by
  induction members generalizing fs with
  | nil => cases hm
  | cons m' members ih =>
    obtain ⟨u, hu, h⟩ := Option.bind_eq_some_iff.1 h
    obtain ⟨us, hus, -⟩ := Option.map_eq_some_iff.1 h
    rcases List.mem_cons.1 hm with rfl | hm
    · exact ⟨u, hu⟩
    · exact ih hus hm

theorem keys_of_ofEntries? {members : List (String × Json)}
    {fs : List (String × Presence × TypeTree)} (h : ofEntries? members = some fs) :
    fs.map Prod.fst = members.map Prod.fst := by
  induction members generalizing fs with
  | nil =>
    cases h
    rfl
  | cons m members ih =>
    obtain ⟨k, v⟩ := m
    obtain ⟨u, hu, h⟩ := Option.bind_eq_some_iff.1 h
    obtain ⟨us, hus, rfl⟩ := Option.map_eq_some_iff.1 h
    rw [List.map_cons, List.map_cons, ih hus]

theorem exists_ofEntries? {members : List (String × Json)}
    (h : ∀ m ∈ members, ∃ t, ofJson? m.2 = some t) : ∃ fs, ofEntries? members = some fs := by
  induction members with
  | nil => exact ⟨[], rfl⟩
  | cons m members ih =>
    obtain ⟨k, v⟩ := m
    obtain ⟨t, ht⟩ := h (k, v) List.mem_cons_self
    obtain ⟨fs, hfs⟩ := ih fun w hw ↦ h w (List.mem_cons_of_mem _ hw)
    exact ⟨(k, .required, t) :: fs, by rw [ofEntries?, ht, hfs]; rfl⟩

/-- The fields of an object whose keys are pairwise different: one for each member. -/
theorem field?_ofEntries? {members : List (String × Json)}
    {fs : List (String × Presence × TypeTree)} (h : ofEntries? members = some fs)
    (hn : (members.map Prod.fst).Nodup) {key : String} {p : Presence} {t : TypeTree} :
    (Ordered.ofList fs : TreeFields).toList.lookup key = some (p, t) ↔
      p = .required ∧ ∃ v, Json.member? key members = some v ∧ ofJson? v = some t := by
  have hnf : (fs.map fun e ↦ e.1).Nodup := by
    rw [← keys_of_ofEntries? h] at hn
    exact hn
  rw [TreeFields.lookup_toList_iff, Ordered.mem_ofList_of_nodup hnf, mem_of_ofEntries? h]
  simp only [Json.member?, lookup_eq_some_iff_mem hn]

end TypeTree

end Silhouette
