import Silhouette.Proofs.Registry.Prune

/-!
# The walk, turn by turn

`Registry.reach` says what a walk with a stack comes to.  Here the walk itself is looked at: a
`Traversal` is what has been seen and what is on the stack, `Traversal.turn?` takes one id off the
stack, and `Traversal.Runs` says that a walk comes to its end after so many turns.

That it does (`Traversal.exists_runs`) is not clear from the stack, which can grow, nor from what
has been seen, which need not grow.  But every id comes onto the stack for a reference to it in a
node that is seen for the first time.  So the references in the nodes that have not been seen and
the ids on the stack together become fewer with every turn (`Traversal.pending_lt`).
-/

set_option autoImplicit false

namespace Silhouette

namespace Registry

/-! ## References -/

/-- The number of references to nodes in some entries. -/
def references (entries : List (NodeId × Descriptor)) : Nat :=
  (entries.flatMap fun e ↦ e.2.children.filterMap TypeId.node?).length

/-- The entries under ids that have not been seen. -/
def unseenEntries (r : Registry) (seen : List NodeId) : List (NodeId × Descriptor) :=
  r.nodes.toList.filter fun e ↦ e.1 ∉ seen

theorem unseenEntries_nil (r : Registry) : r.unseenEntries [] = r.nodes.toList := by
  simp [unseenEntries]

theorem unseenEntries_cons (r : Registry) (seen : List NodeId) (id : NodeId) :
    r.unseenEntries (id :: seen) = (r.unseenEntries seen).filter fun e ↦ e.1 ≠ id := by
  simp [unseenEntries, List.filter_filter]

theorem references_cons (e : NodeId × Descriptor) (entries : List (NodeId × Descriptor)) :
    references (e :: entries) =
      (e.2.children.filterMap TypeId.node?).length + references entries := by
  rw [references, List.flatMap_cons, List.length_append]
  rfl

theorem references_append (entries entries' : List (NodeId × Descriptor)) :
    references (entries ++ entries') = references entries + references entries' := by
  rw [references, List.flatMap_append, List.length_append]
  rfl

theorem references_filter_le (p : NodeId × Descriptor → Bool)
    (entries : List (NodeId × Descriptor)) :
    references (entries.filter p) ≤ references entries := by
  induction entries with
  | nil => exact Nat.le_refl _
  | cons e entries ih =>
    rw [List.filter_cons, references_cons]
    split
    · rw [references_cons]
      exact Nat.add_le_add_left ih _
    · exact Nat.le_trans ih (Nat.le_add_left _ _)

/-- Without an entry there are fewer references, by those of the entry. -/
theorem references_filter_add_le {p : NodeId × Descriptor → Bool} {e : NodeId × Descriptor}
    {entries : List (NodeId × Descriptor)} (he : e ∈ entries) (hp : p e = false) :
    references (entries.filter p) + (e.2.children.filterMap TypeId.node?).length ≤
      references entries := by
  obtain ⟨l, l', rfl⟩ := List.append_of_mem he
  have hl := references_filter_le p l
  have hl' := references_filter_le p l'
  have hdrop : ¬ p e = true := by simp [hp]
  rw [List.filter_append, List.filter_cons_of_neg hdrop, references_append, references_append,
    references_cons]
  omega

theorem references_unseenEntries_cons_le (r : Registry) (seen : List NodeId) (id : NodeId) :
    references (r.unseenEntries (id :: seen)) ≤ references (r.unseenEntries seen) := by
  rw [unseenEntries_cons]
  exact references_filter_le _ _

/-- Seeing a node for the first time leaves fewer references, by those that it puts on the stack. -/
theorem references_unseenEntries_cons_add_le {r : Registry} {seen : List NodeId} {id : NodeId}
    {d : Descriptor} (hg : r.get? id = some d) (hs : id ∉ seen) :
    references (r.unseenEntries (id :: seen)) + (d.unseenNodes (id :: seen)).length ≤
      references (r.unseenEntries seen) := by
  have hmem : (id, d) ∈ r.unseenEntries seen :=
    List.mem_filter.2 ⟨mem_nodes_of_get? hg, by simpa using hs⟩
  have hrefs := references_filter_add_le (p := fun e ↦ e.1 ≠ id) hmem (by simp)
  have hput : (d.unseenNodes (id :: seen)).length ≤
      (d.children.filterMap TypeId.node?).length := by
    rw [Descriptor.unseenNodes, List.length_reverse]
    exact List.length_filter_le _ _
  rw [unseenEntries_cons]
  exact Nat.le_trans (Nat.add_le_add_left hput _) hrefs

end Registry

open Registry

/-! ## Turns -/

/-- A walk under way. -/
structure Traversal where
  /-- The ids that have been taken off the stack. -/
  seen : List NodeId
  /-- The ids that are still to be looked at, the next one first. -/
  stack : List NodeId

namespace Traversal

/-- Take an id off the stack.  If it is new, it is seen now, and if it is registered, what it refers
to and has not been seen comes onto the stack.  There is no turn when the stack is empty. -/
def turn? (r : Registry) (w : Traversal) : Option Traversal :=
  match w.stack with
  | [] => none
  | id :: rest =>
    if id ∈ w.seen then some ⟨w.seen, rest⟩
    else
      match r.get? id with
      | none => some ⟨id :: w.seen, rest⟩
      | some d => some ⟨id :: w.seen, d.unseenNodes (id :: w.seen) ++ rest⟩

variable {r : Registry} {w w' : Traversal}

/-- **What a turn does.**  The id on top has been seen, or it is new and not registered, or it is
new and registered. -/
theorem turn?_cases (h : w.turn? r = some w') :
    ∃ id rest, w.stack = id :: rest ∧
      ((id ∈ w.seen ∧ w' = ⟨w.seen, rest⟩) ∨
        (id ∉ w.seen ∧ r.get? id = none ∧ w' = ⟨id :: w.seen, rest⟩) ∨
        ∃ d, id ∉ w.seen ∧ r.get? id = some d ∧
          w' = ⟨id :: w.seen, d.unseenNodes (id :: w.seen) ++ rest⟩) := by
  rw [turn?] at h
  split at h
  · cases h
  · next id rest hstack =>
    refine ⟨id, rest, hstack, ?_⟩
    split at h
    · next hs => exact .inl ⟨hs, (Option.some.inj h).symm⟩
    · next hs =>
      split at h
      · next hg => exact .inr (.inl ⟨hs, hg, (Option.some.inj h).symm⟩)
      · next d hg => exact .inr (.inr ⟨d, hs, hg, (Option.some.inj h).symm⟩)

theorem stack_eq_nil_of_turn? (h : w.turn? r = none) : w.stack = [] := by
  rw [turn?] at h
  split at h
  · next hstack => exact hstack
  · split at h
    · cases h
    · split at h <;> cases h

/-- What is on the stack and what can still come onto it. -/
def pending (r : Registry) (w : Traversal) : Nat :=
  references (r.unseenEntries w.seen) + w.stack.length

/-- After a turn less is pending. -/
theorem pending_lt (h : w.turn? r = some w') : w'.pending r < w.pending r := by
  obtain ⟨id, rest, hstack, ⟨-, rfl⟩ | ⟨-, -, rfl⟩ | ⟨d, hs, hg, rfl⟩⟩ := turn?_cases h
  · simp only [pending, hstack, List.length_cons]
    omega
  · have hrefs := r.references_unseenEntries_cons_le w.seen id
    simp only [pending, hstack, List.length_cons]
    omega
  · have hrefs := references_unseenEntries_cons_add_le hg hs
    simp only [pending, hstack, List.length_cons, List.length_append]
    omega

/-- A turn does not change what the walk comes to. -/
theorem reach_of_turn? (h : w.turn? r = some w') :
    r.reach w.seen w.stack = r.reach w'.seen w'.stack := by
  obtain ⟨id, rest, hstack, ⟨hs, rfl⟩ | ⟨hs, hg, rfl⟩ | ⟨d, hs, hg, rfl⟩⟩ := turn?_cases h
  · rw [hstack, reach_of_mem hs]
  · rw [hstack, reach_of_none hs hg]
  · rw [hstack, reach_of_some hs hg]

/-! ## All turns -/

/-- A walk comes to its end after a number of turns, and then these ids have been seen. -/
inductive Runs (r : Registry) : Nat → Traversal → List NodeId → Prop
  | done {w : Traversal} (h : w.turn? r = none) : Runs r 0 w w.seen
  | turn {turns : Nat} {w w' : Traversal} {out : List NodeId} (h : w.turn? r = some w')
      (hrun : Runs r turns w' out) : Runs r (turns + 1) w out

/-- **Every walk ends**, with what `reach` says, and with no more turns than was pending. -/
theorem exists_runs (r : Registry) (w : Traversal) :
    ∃ turns ≤ w.pending r, Runs r turns w (r.reach w.seen w.stack) := by
  induction hn : w.pending r using Nat.strongRecOn generalizing w with
  | _ n ih =>
    subst hn
    cases h : w.turn? r with
    | none =>
      rw [stack_eq_nil_of_turn? h, reach_nil]
      exact ⟨0, Nat.zero_le _, .done h⟩
    | some w' =>
      obtain ⟨turns, hle, hrun⟩ := ih _ (pending_lt h) w' rfl
      rw [reach_of_turn? h]
      exact ⟨turns + 1, Nat.lt_of_le_of_lt hle (pending_lt h), .turn h hrun⟩

end Traversal

end Silhouette
