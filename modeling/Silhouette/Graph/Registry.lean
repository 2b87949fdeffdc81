import Silhouette.Graph.Digest
import Silhouette.Table

/-!
# The registry

A `Registry` holds the descriptions that have been met, each once and under its digest.  It has two
indexes: `nodes`, from ids to descriptions and in the order of registration, and `shapes`, from
descriptions to ids.  Descriptions are looked up by what they say, so two that differ are never
taken for one even if their digests agree; that case is a `Collision` and leaves the registry as it
is.  The digests are compared first all the same, since most descriptions differ there already.
-/

set_option autoImplicit false

namespace Silhouette

/-- The descriptions met so far. -/
structure Registry where
  /-- In the order of registration. -/
  nodes : Table NodeId Descriptor
  /-- The latest first. -/
  shapes : List (Descriptor × NodeId)

/-- A description has the digest of another one. -/
structure Collision where
  id : NodeId
deriving DecidableEq, Repr

namespace Registry

def empty : Registry := ⟨∅, []⟩

instance : EmptyCollection Registry := ⟨empty⟩

/-- The description of a node. -/
def get? (r : Registry) (id : NodeId) : Option Descriptor := r.nodes.find? id

/-- The id of a description. -/
def find? (r : Registry) (d : Descriptor) : Option NodeId :=
  let id := d.digest
  (r.shapes.find? fun entry ↦ entry.2 = id ∧ entry.1 = d).map Prod.snd

def contains (r : Registry) (id : NodeId) : Bool := (r.get? id).isSome

def size (r : Registry) : Nat := r.nodes.size

def isEmpty (r : Registry) : Bool := r.nodes.isEmpty

/-- The registered ids in the order of registration. -/
def ids (r : Registry) : List NodeId := r.nodes.toList.map Prod.fst

/-- The description that an id refers to. -/
def describe? (r : Registry) (id : TypeId) : Option Descriptor := id.node?.bind r.get?

/-- Look a description up, and register it if it is new. -/
def intern (r : Registry) (d : Descriptor) : Except Collision (TypeId × Registry) :=
  match r.find? d with
  | some id => .ok (.node id, r)
  | none =>
    let id := d.digest
    if r.contains id then .error ⟨id⟩
    else .ok (.node id, ⟨r.nodes.add id d, (d, id) :: r.shapes⟩)

/-- Forget all nodes but some; the others keep their order.  The second index forgets what the first
no longer has. -/
def retain (r : Registry) (keep : NodeId → Bool) : Registry :=
  let nodes := r.nodes.filter keep
  ⟨nodes, r.shapes.filter fun entry ↦ (nodes.find? entry.2).isSome⟩

/-- The registry as a JSON object from ids to descriptions. -/
def toJson (r : Registry) : Json :=
  .object (r.nodes.toList.map fun entry ↦ (entry.1.text, entry.2.toJson))

/-! ## Small facts -/

theorem get?_empty (id : NodeId) : (∅ : Registry).get? id = none :=
  (Table.find?_eq_lookup _ _).trans rfl

/-- An id is looked up among the nodes in their order. -/
theorem get?_eq_lookup (r : Registry) (id : NodeId) : r.get? id = r.nodes.toList.lookup id :=
  r.nodes.find?_eq_lookup id

theorem length_ids (r : Registry) : r.ids.length = r.size := by
  rw [ids, List.length_map, size, Table.size_eq_length]

/-- A description that is registered is not registered again. -/
theorem intern_of_find? {r : Registry} {d : Descriptor} {id : NodeId} (h : r.find? d = some id) :
    r.intern d = .ok (.node id, r) := by simp [intern, h]

end Registry

end Silhouette
