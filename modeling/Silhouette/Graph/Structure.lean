import Silhouette.Graph.Registry

/-!
# Type graphs with a root

A `Structure` is a registry together with the id of the type that it is about.  Building a type
leaves descriptions behind that the type does not need in the end; `Structure.prune` drops what the
root does not reach.

`Registry.reach` walks the graph with a stack of ids still to be visited.  What has been seen is not
put on the stack, but an id can be put there several times before it is seen, so every id is looked
at again when its turn comes.  Every step either visits a registered node for the first time or
makes the stack shorter, and that is why it ends, on cyclic graphs too.  An id that is not
registered counts as reached but leads nowhere.
-/

set_option autoImplicit false

namespace Silhouette

/-- The nodes that a description puts on the stack of the walk: those that it refers to and that
have not been seen.  The last one comes on top. -/
def Descriptor.unseenNodes (d : Descriptor) (seen : List NodeId) : List NodeId :=
  ((d.children.filterMap TypeId.node?).filter fun c ↦ c ∉ seen).reverse

namespace Registry

/-- The registered nodes that have not been seen yet. -/
def unseen (r : Registry) (seen : List NodeId) : List NodeId := r.ids.filter fun id ↦ id ∉ seen

theorem unseen_cons (r : Registry) (seen : List NodeId) (id : NodeId) :
    r.unseen (id :: seen) = (r.unseen seen).filter fun x ↦ x ≠ id := by
  simp [unseen, List.filter_filter]

theorem length_unseen_cons_le (r : Registry) (seen : List NodeId) (id : NodeId) :
    (r.unseen (id :: seen)).length ≤ (r.unseen seen).length := by
  rw [unseen_cons]; exact List.length_filter_le _ _

/-- Seeing a registered node for the first time leaves one less. -/
theorem length_unseen_cons_lt {r : Registry} {seen : List NodeId} {id : NodeId} (hr : id ∈ r.ids)
    (hs : id ∉ seen) : (r.unseen (id :: seen)).length < (r.unseen seen).length := by
  rw [unseen_cons, List.length_filter_lt_length_iff_exists]
  exact ⟨id, by simp [unseen, hr, hs], by simp⟩

theorem mem_ids_of_get? {r : Registry} {id : NodeId} {d : Descriptor} (h : r.get? id = some d) :
    id ∈ r.ids := by
  rw [get?_eq_lookup] at h
  unfold ids
  generalize r.nodes.toList = l at h
  induction l with
  | nil => cases h
  | cons e l ih =>
    obtain ⟨i, d'⟩ := e
    simp only [List.lookup_cons] at h
    split at h
    · next hi => simp [eq_of_beq hi]
    · exact List.mem_cons_of_mem _ (ih h)

/-- The nodes seen before and everything that a stack of nodes reaches. -/
def reach (r : Registry) (seen : List NodeId) (stack : List NodeId) : List NodeId :=
  match stack with
  | [] => seen
  | id :: stack =>
    if hs : id ∈ seen then reach r seen stack
    else
      match h : r.get? id with
      | none =>
        have := r.length_unseen_cons_le seen id
        reach r (id :: seen) stack
      | some d =>
        have := length_unseen_cons_lt (mem_ids_of_get? h) hs
        reach r (id :: seen) (d.unseenNodes (id :: seen) ++ stack)
termination_by ((r.unseen seen).length, stack.length)
decreasing_by
  · exact .right _ (by simp)
  · rcases Nat.lt_or_eq_of_le ‹(r.unseen (id :: seen)).length ≤ _› with h | h
    · exact .left _ _ h
    · rw [h]; exact .right _ (by simp)
  · exact .left _ _ ‹_›

end Registry

/-- A registry and the type that it is about. -/
structure Structure where
  root : TypeId
  types : Registry

namespace Structure

/-- The nodes that the root reaches. -/
def reachable (s : Structure) : List NodeId := s.types.reach [] s.root.node?.toList

/-- Drop what the root does not reach. -/
def prune (s : Structure) : Structure :=
  let kept := s.reachable
  { s with types := s.types.retain fun id ↦ id ∈ kept }

/-- The structure as a JSON object: its root, and its types in the order of registration. -/
def toJson (s : Structure) : Json :=
  .object [("rootTypeId", s.root.toJson), ("types", s.types.toJson)]

end Structure

end Silhouette
