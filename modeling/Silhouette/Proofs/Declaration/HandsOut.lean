import Silhouette.Proofs.Declaration.Naming
import Silhouette.Proofs.Registry.Levels

/-!
# Which nodes are named, and how names are handed out

Nothing is assumed of a structure here.  If all nodes are found, the walk of `assignNames` names the
objects among the nodes that its queue leads to, in the order of `Registry.Discovers`
(`exists_discovers_of_assignNames`).

`HandsOut before after names` says how sets of taken names go with names that are handed out: those
are identifiers, no two are the same, none was taken before and all are taken after, and what was
taken stays so.  It goes through one name at a time (`HandsOut.one`) and is put together along a
walk and along a whole run (`HandsOut.append`).  A walk that fails hands out nothing, and still
takes names for good (`mem_taken_assignNames`).
-/

set_option autoImplicit false

namespace Silhouette

open Registry Text

/-! ## Names that are handed out -/

/-- Names are handed out, and what was taken before is taken after. -/
structure HandsOut (before after : TakenNames) (names : List String) : Prop where
  nodup : names.Nodup
  isIdentifier : ∀ name ∈ names, isIdentifier name
  not_mem : ∀ name ∈ names, name ∉ before
  mem : ∀ name ∈ names, name ∈ after
  stays : ∀ name ∈ before, name ∈ after

namespace HandsOut

variable {before between after : TakenNames} {names more : List String}

theorem none (h : ∀ name ∈ before, name ∈ after) : HandsOut before after [] where
  nodup := List.nodup_nil
  isIdentifier _ hn := absurd hn List.not_mem_nil
  not_mem _ hn := absurd hn List.not_mem_nil
  mem _ hn := absurd hn List.not_mem_nil
  stays := h

theorem one {name : String} (hname : Text.isIdentifier name) (hfree : name ∉ before) :
    HandsOut before (before.insert name) [name] where
  nodup := List.nodup_singleton name
  isIdentifier := List.forall_mem_singleton.2 hname
  not_mem := List.forall_mem_singleton.2 hfree
  mem := List.forall_mem_singleton.2 Std.TreeSet.mem_insert_self
  stays _ hn := Std.TreeSet.mem_insert.2 (.inr hn)

/-- Names that are handed out later are new. -/
theorem append (h : HandsOut before between names) (h' : HandsOut between after more) :
    HandsOut before after (names ++ more) where
  nodup := h.nodup.append h'.nodup fun name hn hn' ↦ h'.not_mem name hn' (h.mem name hn)
  isIdentifier := List.forall_mem_append.2 ⟨h.isIdentifier, h'.isIdentifier⟩
  not_mem := List.forall_mem_append.2
    ⟨h.not_mem, fun name hn hmem ↦ h'.not_mem name hn (h.stays name hmem)⟩
  mem := List.forall_mem_append.2 ⟨fun name hn ↦ h'.stays name (h.mem name hn), h'.mem⟩
  stays name hn := h'.stays name (h.stays name hn)

/-- Some of the names are handed out if all are. -/
theorem sublist (h : HandsOut before after names) (hmore : more.Sublist names) :
    HandsOut before after more where
  nodup := h.nodup.sublist hmore
  isIdentifier name hn := h.isIdentifier name (hmore.subset hn)
  not_mem name hn := h.not_mem name (hmore.subset hn)
  mem name hn := h.mem name (hmore.subset hn)
  stays := h.stays

theorem fresh (taken : TakenNames) {hint : String} (h : Text.isIdentifier hint) :
    HandsOut taken (taken.insert (freshName taken hint)) [freshName taken hint] :=
  one (isIdentifier_freshName taken h) (freshName_not_mem taken hint)

end HandsOut

/-! ## The walk -/

/-- Whether a node is registered as an object. -/
def Registry.isObject (r : Registry) (id : NodeId) : Bool := (r.fields? (.node id)).isSome

theorem isObject_iff {r : Registry} {id : NodeId} : r.isObject id ↔ r.IsObject id := by
  rw [isObject, Option.isSome_iff_exists]
  refine exists_congr fun fields ↦ ?_
  rw [fields?_eq_some_iff, describe?_eq_some_iff]
  constructor
  · rintro ⟨n, hn, hg⟩
    cases hn
    exact hg
  · exact fun hg ↦ ⟨id, rfl, hg⟩

theorem Visit.map_type_next (hint : String) (d : Descriptor) :
    (Visit.next hint d).map Visit.type = d.children := by
  cases d with
  | object fields => exact List.map_map
  | array item => rfl
  | union members =>
    rw [Visit.next, List.map_map]
    exact List.map_id _

section Walk

variable {find : NameFinder} {r : Registry} {seen : List NodeId} {taken taken' : TakenNames}
  {names names' : Names} {queue : List Visit}

theorem assignNames_of_none {id : NodeId} {hint : String} {isName : Bool} (hs : id ∉ seen)
    (hg : r.get? id = none) :
    assignNames find r seen taken names (⟨.node id, hint, isName⟩ :: queue) =
      (.error (.missingType id), taken) := by
  rw [assignNames, dif_neg hs]
  split
  · rfl
  · next d hd =>
    rw [hg] at hd
    cases hd

/-- A visit whose hint can be declared, and is not a name yet. -/
def Visit.Ready (v : Visit) : Prop := v.isName = false ∧ isIdentifier v.hint

theorem Visit.ready_next {hint : String} (hhint : isIdentifier hint) (d : Descriptor) :
    ∀ v ∈ Visit.next hint d, v.Ready := fun _ hv ↦
  have h := Visit.of_mem_next hhint hv
  ⟨h.1, h.2.1⟩

/-- **Objects are named in the order in which they are found**, each with a name of its own. -/
theorem exists_discovers_of_assignNames
    (h : assignNames freshName r seen taken names queue = (.ok names', taken'))
    (hready : ∀ v ∈ queue, v.Ready) :
    ∃ found more, r.Discovers seen (queue.map Visit.type) found ∧ names' = names ++ more ∧
      more.map Prod.fst = found.filter r.isObject ∧ HandsOut taken taken' (more.map Prod.snd) := by
  induction seen, taken, names, queue using assignNames_induction freshName r with
  | nil seen taken names =>
    rw [assignNames_nil] at h
    cases h
    exact ⟨[], [], .done seen, (List.append_nil _).symm, rfl, .none fun _ hn ↦ hn⟩
  | scalar seen taken names kind hint isName queue ih =>
    rw [assignNames_scalar] at h
    obtain ⟨found, more, hfound, hrest⟩ := ih h (List.forall_mem_cons.1 hready).2
    exact ⟨found, more, .pass (fun _ he ↦ by cases he) hfound, hrest⟩
  | again seen taken names id hint isName queue hs ih =>
    rw [assignNames_of_mem hs] at h
    obtain ⟨found, more, hfound, hrest⟩ := ih h (List.forall_mem_cons.1 hready).2
    exact ⟨found, more, .pass (fun _ he ↦ TypeId.node.inj he ▸ hs) hfound, hrest⟩
  | missing seen taken names id hint isName queue hs hg =>
    rw [assignNames_of_none hs hg] at h
    cases h
  | given seen taken names id hint queue fields hs hg =>
    cases (hready _ List.mem_cons_self).1
  | object seen taken names id hint queue fields hs hg ih =>
    obtain ⟨⟨-, hhint⟩, hready⟩ := List.forall_mem_cons.1 hready
    rw [assignNames_of_object hs hg, if_neg Bool.false_ne_true] at h
    obtain ⟨found, more, hfound, rfl, hids, hnames⟩ :=
      ih h (List.forall_mem_append.2 ⟨hready, Visit.ready_next hhint _⟩)
    rw [List.map_append, Visit.map_type_next] at hfound
    refine ⟨id :: found, (id, freshName taken hint) :: more, .visit hs hg hfound,
      List.append_assoc _ _ _, ?_, (HandsOut.fresh taken hhint).append hnames⟩
    rw [List.filter_cons_of_pos (isObject_iff.2 ⟨fields, hg⟩), List.map_cons, hids]
  | other seen taken names id hint isName queue d hs hg hno ih =>
    obtain ⟨⟨-, hhint⟩, hready⟩ := List.forall_mem_cons.1 hready
    rw [assignNames_of_not_isObject hs hg hno] at h
    obtain ⟨found, more, hfound, rfl, hids, hnames⟩ :=
      ih h (List.forall_mem_append.2 ⟨hready, Visit.ready_next hhint _⟩)
    rw [List.map_append, Visit.map_type_next] at hfound
    refine ⟨id :: found, more, .visit hs hg hfound, rfl, ?_, hnames⟩
    rw [List.filter_cons_of_neg (mt isObject_iff.1 hno), hids]

/-- Whatever comes of a walk, what is taken stays so. -/
theorem mem_taken_assignNames {name : String} (h : name ∈ taken) :
    name ∈ (assignNames find r seen taken names queue).2 := by
  induction seen, taken, names, queue using assignNames_induction find r with
  | nil => rwa [assignNames_nil]
  | scalar seen taken names kind hint isName queue ih => rw [assignNames_scalar]; exact ih h
  | again seen taken names id hint isName queue hs ih => rw [assignNames_of_mem hs]; exact ih h
  | missing seen taken names id hint isName queue hs hg =>
    rw [assignNames_of_none hs hg]
    exact h
  | given seen taken names id hint queue fields hs hg ih =>
    rw [assignNames_of_object hs hg, if_pos rfl]
    exact ih h
  | object seen taken names id hint queue fields hs hg ih =>
    rw [assignNames_of_object hs hg, if_neg Bool.false_ne_true]
    exact ih (Std.TreeSet.mem_insert.2 (.inr h))
  | other seen taken names id hint isName queue d hs hg hno ih =>
    rw [assignNames_of_not_isObject hs hg hno]
    exact ih h

end Walk

/-! ## From the root -/

/-- The root with its name, if it is an object. -/
def Structure.rootEntry (s : Structure) (rootName : String) : Names :=
  (s.root.node?.toList.filter s.types.isObject).map fun id ↦ (id, rootName)

section Root

variable {s : Structure} {before taken : TakenNames} {rootName : String} {names : Names}

theorem rootEntry_of_object {root : NodeId} (hroot : s.root = .node root)
    (hobj : s.types.IsObject root) : s.rootEntry rootName = [(root, rootName)] := by
  rw [Structure.rootEntry, hroot]
  exact congrArg _ (List.filter_cons_of_pos (isObject_iff.2 hobj))

theorem rootEntry_of_not_object (h : ¬ s.hasObjectRoot) : s.rootEntry rootName = [] := by
  rw [Structure.rootEntry]
  cases hroot : s.root with
  | scalar kind => rfl
  | node root =>
    have hobj : ¬ s.types.isObject root := mt isObject_iff.1 (mt (hasObjectRoot_node_iff hroot).2 h)
    exact congrArg _ (List.filter_cons_of_neg hobj)

/-- **From the root on, all objects that are found are named**, and the root keeps its name. -/
theorem exists_discovers_of_assignRoot (h : assignRoot s before rootName = (.ok names, taken))
    (hname : isIdentifier rootName) :
    ∃ found more, s.types.Discovers [] [s.root] found ∧ names = s.rootEntry rootName ++ more ∧
      names.map Prod.fst = found.filter s.types.isObject ∧
        HandsOut (before.insert rootName) taken (more.map Prod.snd) := by
  rw [assignRoot] at h
  cases hroot : s.root with
  | scalar kind =>
    have hentry : s.rootEntry rootName = [] := by rw [Structure.rootEntry, hroot]; rfl
    rw [hroot, assignNames_scalar, assignNames_nil] at h
    cases h
    exact ⟨[], [], .pass (fun _ he ↦ by cases he) (.done []), by rw [hentry]; rfl, rfl,
      .none fun _ hn ↦ hn⟩
  | node root =>
    rw [hroot] at h
    cases hg : s.types.get? root with
    | none =>
      rw [assignNames_of_none List.not_mem_nil hg] at h
      cases h
    | some d =>
      by_cases hobj : s.types.IsObject root
      · obtain ⟨fields, hfields⟩ := hobj
        obtain rfl := Option.some.inj (hg.symm.trans hfields)
        rw [assignNames_of_object List.not_mem_nil hg, if_pos rfl, List.nil_append,
          List.nil_append] at h
        obtain ⟨found, more, hfound, rfl, hids, hnames⟩ :=
          exists_discovers_of_assignNames h (Visit.ready_next hname _)
        rw [Visit.map_type_next] at hfound
        rw [rootEntry_of_object hroot ⟨fields, hg⟩]
        refine ⟨root :: found, more, .visit List.not_mem_nil hg hfound, rfl, ?_, hnames⟩
        rw [List.filter_cons_of_pos (isObject_iff.2 ⟨fields, hg⟩), ← hids]
        rfl
      · rw [assignNames_of_not_isObject List.not_mem_nil hg hobj, List.nil_append] at h
        obtain ⟨found, more, hfound, hmore, hids, hnames⟩ :=
          exists_discovers_of_assignNames h (Visit.ready_next hname _)
        rw [Visit.map_type_next] at hfound
        have hno : ¬ s.hasObjectRoot := mt (hasObjectRoot_node_iff hroot).1 hobj
        rw [rootEntry_of_not_object hno]
        refine ⟨root :: found, more, .visit List.not_mem_nil hg hfound, hmore, ?_, hnames⟩
        rw [List.filter_cons_of_neg (mt isObject_iff.1 hobj), ← hids, hmore]
        rfl

end Root

end Silhouette
