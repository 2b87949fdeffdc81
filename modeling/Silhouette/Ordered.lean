/-!
# Collections kept in the order of a key

A finite set of type ids and a finite map from keys to fields are the same thing here: a list in
strictly increasing order of a key.  For a set the key is the element itself, for a map it is the
first component of an entry.  Because the order is strict and part of the type, there is **one**
representation per collection, so equality of collections is equality of their members
(`Ordered.ext_mem`) and printing or hashing one needs no sorting.

* `Ordered.insert` puts an element in its place and replaces the one that has the same key;
* `Ordered.find?` looks an element up by its key;
* `Ordered.ofList` inserts the elements of a list, later ones over earlier ones.
-/

set_option autoImplicit false

namespace Silhouette

open Std

variable {α κ : Type} [Ord κ]

/-- A list of elements whose keys strictly increase. -/
structure Ordered (key : α → κ) where
  toList : List α
  increasing : toList.Pairwise fun a b ↦ compare (key a) (key b) = .lt

namespace Ordered

variable {key : α → κ}

theorem ext {s t : Ordered key} (h : s.toList = t.toList) : s = t := by
  cases s; cases t; cases h; rfl

instance [DecidableEq α] : DecidableEq (Ordered key) := fun s t ↦
  decidable_of_iff (s.toList = t.toList) ⟨ext, fun h ↦ h ▸ rfl⟩

instance : Membership α (Ordered key) := ⟨fun s a ↦ a ∈ s.toList⟩

theorem mem_def {s : Ordered key} {a : α} : a ∈ s ↔ a ∈ s.toList := Iff.rfl

instance [DecidableEq α] (s : Ordered key) (a : α) : Decidable (a ∈ s) :=
  inferInstanceAs (Decidable (a ∈ s.toList))

def empty : Ordered key := ⟨[], .nil⟩

instance : EmptyCollection (Ordered key) := ⟨empty⟩

instance : Inhabited (Ordered key) := ⟨empty⟩

@[simp] theorem not_mem_empty (a : α) : ¬ a ∈ (∅ : Ordered key) := List.not_mem_nil

@[simp] theorem toList_empty : (∅ : Ordered key).toList = [] := rfl

def size (s : Ordered key) : Nat := s.toList.length

def isEmpty (s : Ordered key) : Bool := s.toList.isEmpty

/-- The element with a given key. -/
def find? (s : Ordered key) (k : κ) : Option α := s.toList.find? fun a ↦ compare (key a) k == .eq

/-! ## Insertion -/

/-- Put `x` in its place in an increasing list, over the element with the same key if there is
one. -/
def insertList (key : α → κ) (x : α) : List α → List α
  | [] => [x]
  | y :: ys =>
    match compare (key x) (key y) with
    | .lt => x :: y :: ys
    | .eq => x :: ys
    | .gt => y :: insertList key x ys

theorem mem_insertList_imp {x a : α} {l : List α} (h : a ∈ insertList key x l) :
    a = x ∨ a ∈ l := by
  induction l with
  | nil => simpa [insertList] using h
  | cons y ys ih =>
    simp only [insertList] at h
    split at h
    · simpa using h
    · rcases List.mem_cons.1 h with rfl | h
      · exact .inl rfl
      · exact .inr (List.mem_cons_of_mem _ h)
    · rcases List.mem_cons.1 h with rfl | h
      · exact .inr List.mem_cons_self
      · exact (ih h).imp id (List.mem_cons_of_mem _)

theorem increasing_insertList [TransOrd κ] (x : α) {l : List α}
    (h : l.Pairwise fun a b ↦ compare (key a) (key b) = .lt) :
    (insertList key x l).Pairwise fun a b ↦ compare (key a) (key b) = .lt := by
  induction l with
  | nil => simp [insertList]
  | cons y ys ih =>
    obtain ⟨hy, hys⟩ := List.pairwise_cons.1 h
    simp only [insertList]
    split
    · next hxy =>
      refine List.pairwise_cons.2 ⟨fun a ha ↦ ?_, h⟩
      rcases List.mem_cons.1 ha with rfl | ha
      · exact hxy
      · exact TransCmp.lt_trans hxy (hy a ha)
    · next hxy =>
      exact List.pairwise_cons.2 ⟨fun a ha ↦ TransCmp.lt_of_eq_of_lt hxy (hy a ha), hys⟩
    · next hxy =>
      refine List.pairwise_cons.2 ⟨fun a ha ↦ ?_, ih hys⟩
      rcases mem_insertList_imp ha with rfl | ha
      · exact OrientedCmp.lt_of_gt hxy
      · exact hy a ha

variable [TransOrd κ]

/-- Put an element in its place, over the one that has the same key. -/
def insert (s : Ordered key) (x : α) : Ordered key :=
  ⟨insertList key x s.toList, increasing_insertList x s.increasing⟩

/-- Insert the elements of a list one after another. -/
def insertMany (s : Ordered key) (l : List α) : Ordered key := l.foldl insert s

/-- The collection of the elements of a list; of two with one key the later stays. -/
def ofList (l : List α) : Ordered key := insertMany ∅ l

/-! ## What is in a collection -/

@[simp] theorem mem_insert_self (s : Ordered key) (x : α) : x ∈ s.insert x := by
  show x ∈ insertList key x s.toList
  induction s.toList with
  | nil => simp [insertList]
  | cons y ys ih => simp only [insertList]; split <;> simp [ih]

/-- **An element is inserted, and nothing else but its namesake goes.** -/
theorem mem_insert {s : Ordered key} {x a : α} :
    a ∈ s.insert x ↔ a = x ∨ a ∈ s ∧ compare (key a) (key x) ≠ .eq := by
  obtain ⟨l, h⟩ := s
  show a ∈ insertList key x l ↔ a = x ∨ a ∈ l ∧ compare (key a) (key x) ≠ .eq
  induction l with
  | nil => simp [insertList]
  | cons y ys ih =>
    obtain ⟨hy, hys⟩ := List.pairwise_cons.1 h
    simp only [insertList]
    split
    · next hxy =>
      have hne : ∀ b ∈ y :: ys, compare (key b) (key x) ≠ .eq := fun b hb e ↦ by
        have hxb : compare (key x) (key b) = .lt := by
          rcases List.mem_cons.1 hb with rfl | hb
          · exact hxy
          · exact TransCmp.lt_trans hxy (hy b hb)
        rw [OrientedCmp.eq_comm] at e
        rw [e] at hxb; exact absurd hxb (by decide)
      constructor
      · intro ha
        rcases List.mem_cons.1 ha with rfl | ha
        · exact .inl rfl
        · exact .inr ⟨ha, hne a ha⟩
      · rintro (rfl | ⟨ha, -⟩)
        · exact List.mem_cons_self
        · exact List.mem_cons_of_mem _ ha
    · next hxy =>
      have hlt : ∀ b ∈ ys, compare (key b) (key x) ≠ .eq := fun b hb e ↦ by
        have hxb := TransCmp.lt_of_eq_of_lt hxy (hy b hb)
        rw [OrientedCmp.eq_comm] at e
        rw [e] at hxb; exact absurd hxb (by decide)
      constructor
      · intro ha
        rcases List.mem_cons.1 ha with rfl | ha
        · exact .inl rfl
        · exact .inr ⟨List.mem_cons_of_mem _ ha, hlt a ha⟩
      · rintro (rfl | ⟨ha, hne⟩)
        · exact List.mem_cons_self
        · rcases List.mem_cons.1 ha with rfl | ha
          · exact absurd (OrientedCmp.eq_comm.1 hxy) hne
          · exact List.mem_cons_of_mem _ ha
    · next hxy =>
      have hyx : compare (key y) (key x) ≠ .eq := fun e ↦ by
        rw [OrientedCmp.eq_comm] at e
        rw [e] at hxy; exact absurd hxy (by decide)
      constructor
      · intro ha
        rcases List.mem_cons.1 ha with rfl | ha
        · exact .inr ⟨List.mem_cons_self, hyx⟩
        · exact ((ih hys).1 ha).imp id fun h ↦ ⟨List.mem_cons_of_mem _ h.1, h.2⟩
      · rintro (rfl | ⟨ha, hne⟩)
        · exact List.mem_cons_of_mem _ ((ih hys).2 (.inl rfl))
        · rcases List.mem_cons.1 ha with rfl | ha
          · exact List.mem_cons_self
          · exact List.mem_cons_of_mem _ ((ih hys).2 (.inr ⟨ha, hne⟩))

omit [TransOrd κ] in
theorem nodup_toList [ReflOrd κ] (s : Ordered key) : s.toList.Nodup :=
  s.increasing.imp fun {a b} h e ↦ by
    subst e
    rw [ReflOrd.compare_self] at h; exact absurd h (by decide)

/-- **One representation per collection**: collections with the same elements are equal. -/
theorem ext_mem {s t : Ordered key} (h : ∀ a, a ∈ s ↔ a ∈ t) : s = t := by
  obtain ⟨l, hl⟩ := s
  obtain ⟨m, hm⟩ := t
  have anti : ∀ a b : α, compare (key a) (key b) = .lt → ¬ compare (key b) (key a) = .lt := by
    intro a b hab hba
    rw [OrientedOrd.eq_swap, hab] at hba
    exact absurd hba (by decide)
  refine ext ?_
  change l = m
  replace h : ∀ a, a ∈ l ↔ a ∈ m := h
  induction l generalizing m with
  | nil =>
    cases m with
    | nil => rfl
    | cons b m => exact absurd ((h b).2 List.mem_cons_self) List.not_mem_nil
  | cons a l ih =>
    cases m with
    | nil => exact absurd ((h a).1 List.mem_cons_self) List.not_mem_nil
    | cons b m =>
      obtain ⟨ha, hl'⟩ := List.pairwise_cons.1 hl
      obtain ⟨hb, hm'⟩ := List.pairwise_cons.1 hm
      have hab : a = b := by
        rcases List.mem_cons.1 ((h a).1 List.mem_cons_self) with rfl | ham
        · rfl
        · rcases List.mem_cons.1 ((h b).2 List.mem_cons_self) with rfl | hbl
          · rfl
          · exact absurd (hb a ham) (anti a b (ha b hbl))
      subst hab
      congr 1
      refine ih hl' m hm' fun c ↦ ⟨fun hc ↦ ?_, fun hc ↦ ?_⟩
      · rcases List.mem_cons.1 ((h c).1 (List.mem_cons_of_mem _ hc)) with rfl | h'
        · exact absurd (ha c hc) fun e ↦ anti c c e e
        · exact h'
      · rcases List.mem_cons.1 ((h c).2 (List.mem_cons_of_mem _ hc)) with rfl | h'
        · exact absurd (hb c hc) fun e ↦ anti c c e e
        · exact h'

end Ordered

end Silhouette
