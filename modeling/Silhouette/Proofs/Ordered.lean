import Mathlib.Data.List.Nodup
import Silhouette.Graph.Descriptor

/-!
# Ordered collections as sets and maps

`Silhouette.Ordered` says what one insertion does.  Here the collections are looked at as a whole:

* what a look-up finds (`Ordered.find?_eq_some_iff`, `Fields.get?_eq_some_iff`);
* what the collection of a list holds, as a set (`Ordered.mem_ofList`) and as a map
  (`Ordered.mem_ofList_of_nodup`);
* two ways to carry a function over a collection: `Ordered.image` of a set, and `Ordered.relabel`
  of a map, which leaves the keys alone.

The list of entries that a map is made of is looked up by `List.lookup`; where its keys are pairwise
different that is membership (`lookup_eq_some_iff_mem`).
-/

set_option autoImplicit false

namespace Silhouette

open Std

/-! ## Related lists -/

/-- Every element of the second of two related lists has a partner in the first. -/
theorem exists_mem_of_forall₂ {α β : Type} {p : α → β → Prop} {as : List α} {bs : List β}
    (h : List.Forall₂ p as bs) : ∀ b ∈ bs, ∃ a ∈ as, p a b := by
  induction h with
  | nil => exact fun _ hb ↦ absurd hb List.not_mem_nil
  | cons hab _ ih =>
    refine List.forall_mem_cons.2 ⟨⟨_, List.mem_cons_self, hab⟩, fun b hb ↦ ?_⟩
    obtain ⟨a, ha, hp⟩ := ih b hb
    exact ⟨a, List.mem_cons_of_mem _ ha, hp⟩

/-! ## Lists of entries -/

section Lookup

variable {κ β : Type} [DecidableEq κ] {l : List (κ × β)} {k : κ} {b : β}

theorem mem_of_lookup_eq_some (h : l.lookup k = some b) : (k, b) ∈ l := by
  obtain ⟨l₁, l₂, rfl, -⟩ := List.lookup_eq_some_iff.1 h
  exact List.mem_append_right _ List.mem_cons_self

theorem exists_lookup_of_mem (h : (k, b) ∈ l) : ∃ b', l.lookup k = some b' :=
  Option.isSome_iff_exists.1 (List.lookup_isSome_iff.2 ⟨(k, b), h, beq_self_eq_true k⟩)

theorem lookup_eq_some_iff_mem (hl : (l.map Prod.fst).Nodup) :
    l.lookup k = some b ↔ (k, b) ∈ l := by
  refine ⟨mem_of_lookup_eq_some, fun h ↦ ?_⟩
  obtain ⟨b', hb'⟩ := exists_lookup_of_mem h
  have he : (k, b') = (k, b) :=
    List.inj_on_of_nodup_map hl (mem_of_lookup_eq_some hb') h rfl
  exact hb'.trans (congrArg (fun e ↦ some e.2) he)

end Lookup

namespace Ordered

/-! ## Keys -/

section Keys

variable {α κ : Type} [Ord κ] [LawfulEqOrd κ] {key : α → κ}

theorem nodup_keys (s : Ordered key) : (s.toList.map key).Nodup := by
  refine List.pairwise_map.2 (s.increasing.imp fun {a b} h e ↦ ?_)
  rw [e, ReflOrd.compare_self] at h
  exact absurd h (by decide)

/-- Elements with one key are one element. -/
theorem eq_of_key_eq {s : Ordered key} {a b : α} (ha : a ∈ s) (hb : b ∈ s) (h : key a = key b) :
    a = b :=
  List.inj_on_of_nodup_map s.nodup_keys ha hb h

theorem find?_eq_some_iff {s : Ordered key} {k : κ} {a : α} :
    s.find? k = some a ↔ a ∈ s ∧ key a = k := by
  refine ⟨?_, ?_⟩
  · intro h
    have hk := List.find?_some h
    exact ⟨List.mem_of_find?_eq_some h, LawfulEqOrd.compare_eq_iff_eq.1 (by simpa using hk)⟩
  · rintro ⟨ha, rfl⟩
    have hsome : (s.find? (key a)).isSome :=
      List.find?_isSome.2 ⟨a, ha, by simp [ReflOrd.compare_self]⟩
    obtain ⟨b, hb⟩ := Option.isSome_iff_exists.1 hsome
    have hk := List.find?_some hb
    have hkey : key b = key a := LawfulEqOrd.compare_eq_iff_eq.1 (by simpa using hk)
    rw [hb, eq_of_key_eq (List.mem_of_find?_eq_some hb) ha hkey]

/-! ## Collections of a list -/

variable [TransOrd κ]

omit [LawfulEqOrd κ] in
/-- Collections with the same values of two functions are equal, if an element of one and an element
of the other have the same value only if they are the same. -/
theorem eq_of_values_eq {β : Type} {f g : α → β} {s t : Ordered key}
    (h : ∀ x, (∃ a ∈ s, f a = x) ↔ ∃ b ∈ t, g b = x)
    (hinj : ∀ a ∈ s, ∀ b ∈ t, f a = g b → a = b) : s = t ∧ ∀ a ∈ s, f a = g a := by
  have hs : ∀ a ∈ s, a ∈ t ∧ f a = g a := fun a ha ↦ by
    obtain ⟨b, hb, he⟩ := (h (f a)).1 ⟨a, ha, rfl⟩
    have hab := hinj a ha b hb he.symm
    subst hab
    exact ⟨hb, he.symm⟩
  have ht : ∀ b ∈ t, b ∈ s := fun b hb ↦ by
    obtain ⟨a, ha, he⟩ := (h (g b)).2 ⟨b, hb, rfl⟩
    exact hinj a ha b hb he ▸ ha
  exact ⟨ext_mem fun a ↦ ⟨fun ha ↦ (hs a ha).1, ht a⟩, fun a ha ↦ (hs a ha).2⟩

theorem mem_insertMany_of_nodup {s : Ordered key} {l : List α} (hl : (l.map key).Nodup)
    (hs : ∀ a ∈ s, key a ∉ l.map key) (a : α) : a ∈ s.insertMany l ↔ a ∈ s ∨ a ∈ l := by
  induction l generalizing s with
  | nil => simp [insertMany]
  | cons x l ih =>
    obtain ⟨hx, hl⟩ := List.nodup_cons.1 hl
    have hne : ∀ b ∈ s, compare (key b) (key x) ≠ .eq := fun b hb e ↦
      hs b hb (List.mem_cons.2 (.inl (LawfulEqOrd.compare_eq_iff_eq.1 e)))
    have hs' : ∀ b ∈ s.insert x, key b ∉ l.map key := by
      intro b hb
      rcases mem_insert.1 hb with rfl | ⟨hb, -⟩
      · exact hx
      · exact fun h ↦ hs b hb (List.mem_cons_of_mem _ h)
    show a ∈ (s.insert x).insertMany l ↔ _
    rw [ih hl hs', mem_insert, List.mem_cons]
    refine ⟨?_, ?_⟩
    · rintro ((h | ⟨h, -⟩) | h)
      · exact .inr (.inl h)
      · exact .inl h
      · exact .inr (.inr h)
    · rintro (h | h | h)
      · exact .inl (.inr ⟨h, hne a h⟩)
      · exact .inl (.inl h)
      · exact .inr h

/-- A list with pairwise different keys becomes a map with just its entries. -/
theorem mem_ofList_of_nodup {l : List α} (hl : (l.map key).Nodup) (a : α) :
    a ∈ (ofList l : Ordered key) ↔ a ∈ l := by
  rw [ofList, mem_insertMany_of_nodup hl (fun b hb ↦ absurd hb (not_mem_empty b))]
  simp

omit [LawfulEqOrd κ] in
/-- A list becomes a collection of some of its elements. -/
theorem mem_of_mem_ofList {l : List α} {a : α} (h : a ∈ (ofList l : Ordered key)) : a ∈ l := by
  suffices hs : ∀ s : Ordered key, a ∈ s.insertMany l → a ∈ s ∨ a ∈ l from
    (hs ∅ h).resolve_left (not_mem_empty a)
  clear h
  induction l with
  | nil => exact fun s h ↦ .inl h
  | cons x l ih =>
    intro s h
    rcases ih (s.insert x) h with h | h
    · rcases mem_insert.1 h with rfl | ⟨h, -⟩
      · exact .inr List.mem_cons_self
      · exact .inl h
    · exact .inr (List.mem_cons_of_mem _ h)

/-- A collection is the collection of its own elements. -/
theorem ofList_toList (s : Ordered key) : (ofList s.toList : Ordered key) = s :=
  ext_mem fun a ↦ mem_ofList_of_nodup s.nodup_keys a

/-- A list whose keys increase is a collection as it stands. -/
theorem toList_ofList_of_pairwise {l : List α}
    (h : l.Pairwise fun a b ↦ compare (key a) (key b) = .lt) :
    (ofList l : Ordered key).toList = l :=
  congrArg toList (ofList_toList (⟨l, h⟩ : Ordered key))

end Keys

/-! ## Sets -/

section Sets

variable {α β : Type} [Ord α] [Ord β] [TransOrd β]

@[simp] theorem mem_insert_set [TransOrd α] [LawfulEqOrd α] {s : Ordered fun a : α ↦ a} {x a : α} :
    a ∈ s.insert x ↔ a = x ∨ a ∈ s := by
  rw [mem_insert]
  by_cases h : a = x
  · simp [h]
  · simp [h]

/-- The set of the elements of a list. -/
@[simp] theorem mem_ofList [TransOrd α] [LawfulEqOrd α] {l : List α} {a : α} :
    a ∈ (ofList l : Ordered fun a : α ↦ a) ↔ a ∈ l := by
  suffices h : ∀ s : Ordered fun a : α ↦ a, a ∈ s.insertMany l ↔ a ∈ s ∨ a ∈ l by
    simpa [ofList] using h ∅
  induction l with
  | nil => simp [insertMany]
  | cons x l ih =>
    intro s
    show a ∈ (s.insert x).insertMany l ↔ _
    rw [ih, mem_insert_set, List.mem_cons, or_assoc, or_left_comm]

theorem toList_eq_nil_iff {s : Ordered fun a : α ↦ a} : s.toList = [] ↔ ∀ a, ¬ a ∈ s :=
  List.eq_nil_iff_forall_not_mem

theorem toList_eq_singleton_iff [TransOrd α] {s : Ordered fun a : α ↦ a} {x : α} :
    s.toList = [x] ↔ ∀ a, a ∈ s ↔ a = x := by
  refine ⟨?_, ?_⟩
  · intro h a
    rw [mem_def, h, List.mem_singleton]
  · intro h
    have hs : s = ⟨[x], List.pairwise_singleton _ _⟩ :=
      ext_mem fun a ↦ (h a).trans List.mem_singleton.symm
    rw [hs]

/-- A set with two different members lists at least two. -/
theorem exists_toList_eq_cons_cons {s : Ordered fun a : α ↦ a} {a b : α} (ha : a ∈ s) (hb : b ∈ s)
    (hab : a ≠ b) : ∃ x y l, s.toList = x :: y :: l := by
  match hl : s.toList with
  | [] =>
    rw [mem_def, hl] at ha
    cases ha
  | [x] =>
    rw [mem_def, hl, List.mem_singleton] at ha hb
    exact absurd (ha.trans hb.symm) hab
  | x :: y :: l => exact ⟨x, y, l, rfl⟩

/-- Where a list of a set has two members, they are different. -/
theorem ne_of_toList_eq_cons_cons [ReflOrd α] {s : Ordered fun a : α ↦ a} {a b : α} {l : List α}
    (h : s.toList = a :: b :: l) : a ∈ s ∧ b ∈ s ∧ a ≠ b := by
  refine ⟨by simp [mem_def, h], by simp [mem_def, h], ?_⟩
  rintro rfl
  have hnd := s.nodup_toList
  rw [h] at hnd
  simp at hnd

/-- A set that is no singleton has no members or several. -/
theorem size_of_ne_singleton {s : Ordered fun a : α ↦ a} (h : ∀ a, s.toList ≠ [a]) :
    s.size = 0 ∨ 2 ≤ s.size := by
  rw [size]
  match hl : s.toList with
  | [] => exact .inl rfl
  | [a] => exact absurd hl (h a)
  | a :: b :: l => exact .inr (Nat.le_add_left 2 l.length)

/-- The values of a function on a set. -/
def image (f : α → β) (s : Ordered fun a : α ↦ a) : Ordered fun b : β ↦ b :=
  ofList (s.toList.map f)

@[simp] theorem mem_image [LawfulEqOrd β] {f : α → β} {s : Ordered fun a : α ↦ a} {b : β} :
    b ∈ s.image f ↔ ∃ a ∈ s, f a = b := by
  rw [image, mem_ofList, List.mem_map]
  rfl

theorem image_congr {f g : α → β} {s : Ordered fun a : α ↦ a} (h : ∀ a ∈ s, f a = g a) :
    s.image f = s.image g := by
  rw [image, image, List.map_congr_left h]

theorem image_insert_set [LawfulEqOrd β] [TransOrd α] [LawfulEqOrd α] (f : α → β)
    (s : Ordered fun a : α ↦ a) (x : α) : (s.insert x).image f = (s.image f).insert (f x) := by
  refine ext_mem fun b ↦ ?_
  simp only [mem_image, mem_insert_set, or_and_right, exists_or, exists_eq_left, @eq_comm _ b]

end Sets

/-! ## Maps -/

section Maps

variable {α β κ : Type} [Ord κ] {key : α → κ} {key' : β → κ}

/-- Change the elements of a map but not their keys. -/
def relabel (f : α → β) (hf : ∀ a, key' (f a) = key a) (s : Ordered key) : Ordered key' :=
  ⟨s.toList.map f, List.pairwise_map.2 (by simpa only [hf] using s.increasing)⟩

theorem toList_relabel {f : α → β} {hf : ∀ a, key' (f a) = key a} {s : Ordered key} :
    (s.relabel f hf).toList = s.toList.map f := rfl

theorem insertList_map {f : α → β} (hf : ∀ a, key' (f a) = key a) (x : α) (l : List α) :
    insertList key' (f x) (l.map f) = (insertList key x l).map f := by
  induction l with
  | nil => rfl
  | cons y l ih =>
    simp only [insertList, List.map_cons, hf]
    split <;> simp [ih]

theorem relabel_insert [TransOrd κ] {f : α → β} (hf : ∀ a, key' (f a) = key a) (s : Ordered key)
    (x : α) : (s.insert x).relabel f hf = (s.relabel f hf).insert (f x) :=
  ext (insertList_map hf x s.toList).symm

theorem relabel_congr {f g : α → β} {hf : ∀ a, key' (f a) = key a} {hg : ∀ a, key' (g a) = key a}
    {s : Ordered key} (h : ∀ a ∈ s, f a = g a) : s.relabel f hf = s.relabel g hg :=
  ext (List.map_congr_left h)

theorem mem_relabel {f : α → β} {hf : ∀ a, key' (f a) = key a} {s : Ordered key} {b : β} :
    b ∈ s.relabel f hf ↔ ∃ a ∈ s, f a = b :=
  List.mem_map

end Maps

end Ordered

/-! ## Fields -/

namespace Fields

theorem get?_eq_some_iff {fields : Fields} {key : String} {f : Field} :
    fields.get? key = some f ↔ (key, f) ∈ fields := by
  rw [get?, Option.map_eq_some_iff]
  refine ⟨?_, ?_⟩
  · rintro ⟨⟨k, g⟩, h, rfl⟩
    obtain ⟨h, hk⟩ := Ordered.find?_eq_some_iff.1 h
    exact hk ▸ h
  · intro h
    exact ⟨(key, f), Ordered.find?_eq_some_iff.2 ⟨h, rfl⟩, rfl⟩

theorem mem_keys {fields : Fields} {key : String} : key ∈ fields.keys ↔ ∃ f, (key, f) ∈ fields := by
  rw [keys, List.mem_map]
  refine ⟨?_, ?_⟩
  · rintro ⟨⟨k, f⟩, h, rfl⟩
    exact ⟨f, h⟩
  · rintro ⟨f, h⟩
    exact ⟨(key, f), h, rfl⟩

end Fields

end Silhouette
