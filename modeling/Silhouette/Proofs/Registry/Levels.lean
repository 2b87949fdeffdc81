import Mathlib.Data.List.Nodup
import Mathlib.Data.List.Perm.Subperm
import Silhouette.Proofs.Registry.Reach

/-!
# Breadth first, level by level

A search that goes breadth first finds nodes in the order of their **levels**: first those that it
starts with, then what these refer to, then what those refer to, and so on, each node at the first
place where it is met.  `Registry.levels` says this without a queue, and `Structure.discovery` is
the order in which the nodes of a structure are found from its root.

`Registry.Discovers` is a search with a queue.  It finds the nodes in the order of the levels
(`Discovers.eq_levels`): while one level is taken from the front of the queue, the next one is put
together at its end (`Discovers.level`).  And it finds just what the queue leads to
(`Discovers.leads`, `Discovers.mem_of_leads`).
-/

set_option autoImplicit false

namespace Silhouette

namespace Registry

/-! ## Levels -/

/-- What a node refers to; nothing if it is not registered. -/
def parts (r : Registry) (id : NodeId) : List TypeId := (r.get? id).elim [] Descriptor.children

/-- The nodes in a list that have not been seen, each at its first place. -/
def fresh (seen : List NodeId) (met : List TypeId) : List NodeId :=
  ((met.filterMap TypeId.node?).filter fun id ↦ id ∉ seen).eraseDups

/-- The levels of a search, from one on that is made of what has been met. -/
def levels (r : Registry) : (depth : Nat) → (seen : List NodeId) → (met : List TypeId) →
    List (List NodeId)
  | 0, _, _ => []
  | depth + 1, seen, met =>
    let level := fresh seen met
    level :: levels r depth (level ++ seen) (level.flatMap r.parts)

section Fresh

variable {seen seen' : List NodeId} {met : List TypeId} {id : NodeId}

theorem fresh_congr (h : ∀ id, id ∈ seen ↔ id ∈ seen') : fresh seen met = fresh seen' met := by
  simp only [fresh, h]

theorem fresh_nil (seen : List NodeId) : fresh seen [] = [] := rfl

/-- What is no new node is passed over. -/
theorem fresh_cons_of_not {c : TypeId} (h : ∀ id, c = .node id → id ∈ seen) :
    fresh seen (c :: met) = fresh seen met := by
  cases c with
  | scalar kind => rfl
  | node id => simp [fresh, TypeId.node?, h id rfl]

theorem fresh_cons (h : id ∉ seen) :
    fresh seen (.node id :: met) = id :: fresh (id :: seen) met := by
  have hnew : ∀ x : NodeId, (!x == id && decide (x ∉ seen)) = decide (x ∉ id :: seen) := by
    intro x
    by_cases hx : x = id <;> simp [hx]
  simp only [fresh, List.filterMap_cons, TypeId.node?, List.filter_cons, h, not_false_eq_true,
    decide_true, if_true, List.eraseDups_cons, List.filter_filter, hnew]

end Fresh

/-! ## A search with a queue -/

/-- A search that has seen some nodes finds others, in order. -/
inductive Discovers (r : Registry) : (seen : List NodeId) → (queue : List TypeId) →
    (found : List NodeId) → Prop
  | done (seen : List NodeId) : Discovers r seen [] []
  | pass {seen : List NodeId} {c : TypeId} {queue : List TypeId} {found : List NodeId}
      (h : ∀ id, c = .node id → id ∈ seen) (rest : Discovers r seen queue found) :
      Discovers r seen (c :: queue) found
  | visit {seen : List NodeId} {id : NodeId} {d : Descriptor} {queue : List TypeId}
      {found : List NodeId} (hs : id ∉ seen) (hg : r.get? id = some d)
      (rest : Discovers r (id :: seen) (queue ++ d.children) found) :
      Discovers r seen (.node id :: queue) (id :: found)

namespace Discovers

variable {r : Registry} {seen seen' found : List NodeId} {queue later : List TypeId} {a b : NodeId}

/-- **What is in the queue is one level**: it is found first, and then the search goes on with what
was to come later and what the level refers to. -/
theorem level (h : Discovers r seen (queue ++ later) found) :
    ∃ rest, found = fresh seen queue ++ rest ∧
      Discovers r ((fresh seen queue).reverse ++ seen)
        (later ++ (fresh seen queue).flatMap r.parts) rest := by
  induction queue generalizing seen later found with
  | nil => exact ⟨found, rfl, by simpa [fresh_nil] using h⟩
  | cons c queue ih =>
    cases h with
    | pass hc h =>
      rw [fresh_cons_of_not hc]
      exact ih h
    | @visit _ id d _ found hs hg h =>
      have hnext : Discovers r (id :: seen) (queue ++ (later ++ d.children)) found := by
        rw [← List.append_assoc]
        exact h
      obtain ⟨rest, rfl, hrest⟩ := ih hnext
      have hparts : r.parts id = d.children := by rw [parts, hg]; rfl
      refine ⟨rest, by rw [fresh_cons hs]; rfl, ?_⟩
      rw [fresh_cons hs, List.flatMap_cons, hparts, ← List.append_assoc, List.reverse_cons,
        List.append_assoc]
      exact hrest

/-- **Nodes are found in the order of the levels.** -/
theorem eq_levels {depth : Nat} (h : Discovers r seen queue found)
    (hseen : ∀ id, id ∈ seen ↔ id ∈ seen') (hdepth : found.length ≤ depth) :
    found = (r.levels depth seen' queue).flatten := by
  induction depth generalizing seen seen' queue found with
  | zero => exact List.eq_nil_of_length_eq_zero (Nat.le_zero.1 hdepth)
  | succ depth ih =>
    rw [← List.append_nil queue] at h
    obtain ⟨rest, rfl, hrest⟩ := h.level
    rw [levels, List.flatten_cons, ← fresh_congr hseen]
    -- a level without nodes is the last one
    have hlength : rest.length ≤ depth := by
      cases hlevel : fresh seen queue with
      | nil =>
        rw [hlevel] at hrest
        cases hrest
        exact Nat.zero_le depth
      | cons id level =>
        rw [hlevel, List.length_append, List.length_cons] at hdepth
        omega
    rw [ih hrest (fun id ↦ ?_) hlength, List.nil_append]
    rw [List.mem_append, List.mem_reverse, List.mem_append, hseen]

/-! ## What is found -/

theorem not_mem_seen (h : Discovers r seen queue found) : ∀ id ∈ found, id ∉ seen := by
  induction h with
  | done => exact fun _ hid ↦ absurd hid List.not_mem_nil
  | pass _ _ ih => exact ih
  | visit hs _ _ ih =>
    exact List.forall_mem_cons.2 ⟨hs, fun id hid hmem ↦ ih id hid (List.mem_cons_of_mem _ hmem)⟩

theorem nodup (h : Discovers r seen queue found) : found.Nodup := by
  induction h with
  | done => exact List.nodup_nil
  | pass _ _ ih => exact ih
  | visit _ _ rest ih =>
    exact List.nodup_cons.2 ⟨fun hid ↦ rest.not_mem_seen _ hid List.mem_cons_self, ih⟩

theorem mem_ids (h : Discovers r seen queue found) : ∀ id ∈ found, id ∈ r.ids := by
  induction h with
  | done => exact fun _ hid ↦ absurd hid List.not_mem_nil
  | pass _ _ ih => exact ih
  | visit _ hg _ ih => exact List.forall_mem_cons.2 ⟨mem_ids_of_get? hg, ih⟩

theorem length_le_size (h : Discovers r seen queue found) : found.length ≤ r.size := by
  have hlength := h.nodup.length_le_of_subset h.mem_ids
  rwa [length_ids] at hlength

/-- Nodes in the queue lead to whatever is found. -/
theorem leads (h : Discovers r seen queue found) :
    ∀ b ∈ found, ∃ a, TypeId.node a ∈ queue ∧ r.Leads a b := by
  induction h with
  | done => exact fun _ hb ↦ absurd hb List.not_mem_nil
  | pass _ _ ih =>
    intro b hb
    obtain ⟨a, ha, hab⟩ := ih b hb
    exact ⟨a, List.mem_cons_of_mem _ ha, hab⟩
  | @visit seen id d queue found _ hg _ ih =>
    refine List.forall_mem_cons.2 ⟨⟨id, List.mem_cons_self, .refl⟩, fun b hb ↦ ?_⟩
    obtain ⟨a, ha, hab⟩ := ih b hb
    rcases List.mem_append.1 ha with ha | ha
    · exact ⟨a, List.mem_cons_of_mem _ ha, hab⟩
    · exact ⟨id, List.mem_cons_self, .head ⟨d, hg, ha⟩ hab⟩

/-- A node in the queue has been seen or is found. -/
theorem mem_of_mem_queue (h : Discovers r seen queue found) :
    ∀ id, TypeId.node id ∈ queue → id ∈ seen ∨ id ∈ found := by
  induction h with
  | done => exact fun _ hid ↦ absurd hid List.not_mem_nil
  | pass hc _ ih =>
    intro id hid
    rcases List.mem_cons.1 hid with he | hid
    · exact .inl (hc id he.symm)
    · exact ih id hid
  | @visit seen id d queue found _ _ _ ih =>
    intro x hx
    by_cases hxid : x = id
    · exact .inr (hxid ▸ List.mem_cons_self)
    · have hqueue : TypeId.node x ∈ queue :=
        (List.mem_cons.1 hx).resolve_left fun he ↦ hxid (TypeId.node.inj he)
      rcases ih x (List.mem_append_left _ hqueue) with hx | hx
      · exact .inl ((List.mem_cons.1 hx).resolve_left hxid)
      · exact .inr (List.mem_cons_of_mem _ hx)

/-- What a found node refers to has been seen or is found too. -/
theorem mem_of_points (h : Discovers r seen queue found) (ha : a ∈ found) (hab : r.Points a b) :
    b ∈ seen ∨ b ∈ found := by
  induction h with
  | done => cases ha
  | pass _ _ ih => exact ih ha
  | @visit seen id d queue found _ hg rest ih =>
    have hrest : b ∈ id :: seen ∨ b ∈ found := by
      rcases List.mem_cons.1 ha with rfl | ha
      · obtain ⟨d', hd', hb⟩ := hab
        obtain rfl := Option.some.inj (hg.symm.trans hd')
        exact rest.mem_of_mem_queue b (List.mem_append_right _ hb)
      · exact ih ha
    rcases hrest with hb | hb
    · rcases List.mem_cons.1 hb with rfl | hb
      · exact .inr List.mem_cons_self
      · exact .inl hb
    · exact .inr (List.mem_cons_of_mem _ hb)

/-- A search from nothing finds all that its queue leads to. -/
theorem mem_of_leads (h : Discovers r [] queue found) (ha : TypeId.node a ∈ queue)
    (hab : r.Leads a b) : b ∈ found := by
  induction hab with
  | refl => exact (h.mem_of_mem_queue a ha).resolve_left List.not_mem_nil
  | tail _ hbc ih => exact (h.mem_of_points ih hbc).resolve_left List.not_mem_nil

end Discovers

end Registry

/-! ## From the root -/

namespace Structure

/-- The nodes that the root reaches, in the order in which a search by levels finds them. -/
def discovery (s : Structure) : List NodeId := (s.types.levels s.types.size [] [s.root]).flatten

theorem eq_discovery {s : Structure} {found : List NodeId}
    (h : s.types.Discovers [] [s.root] found) : found = s.discovery :=
  h.eq_levels (fun _ ↦ Iff.rfl) h.length_le_size

theorem mem_discovery_iff {s : Structure} {found : List NodeId}
    (h : s.types.Discovers [] [s.root] found) {id : NodeId} :
    id ∈ s.discovery ↔ ∃ root, s.root = .node root ∧ s.types.Leads root id := by
  rw [← eq_discovery h]
  constructor
  · intro hid
    obtain ⟨root, hroot, hleads⟩ := h.leads id hid
    exact ⟨root, (List.mem_singleton.1 hroot).symm, hleads⟩
  · rintro ⟨root, hroot, hleads⟩
    exact h.mem_of_leads (List.mem_singleton.2 hroot.symm) hleads

end Structure

end Silhouette
