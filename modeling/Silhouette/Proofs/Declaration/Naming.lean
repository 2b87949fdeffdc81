import Silhouette.Declaration.Emitter
import Silhouette.Proofs.Declaration.Name
import Silhouette.Proofs.Registry.Views

/-!
# Every object has a name of its own

`assignNames` walks a structure breadth first and names the objects that it meets.  What is true at
every moment of the walk comes in two parts:

* `Naming` — just the objects that have been seen have names, one each and no two the same; they are
  identifiers, and none of them was taken before the walk;
* `Walk` — whatever a seen node refers to has been seen or is in the queue, and what is in the queue
  is known and has a hint that can be declared.

Visiting a node keeps both (`Naming.object`, `Naming.other`, `Walk.visit`), so the walk ends well
and leaves nothing open (`Walk.run`).  What is said of all walks is shown along the queue, by
`assignNames_induction`.  The root comes first and with its name given, and from there
all objects of a structure are named (`exists_assignRoot_eq`).
-/

set_option autoImplicit false

namespace Silhouette

open Registry Text

/-- A node is registered as an object. -/
def Registry.IsObject (r : Registry) (id : NodeId) : Prop :=
  ∃ fields, r.get? id = some (.object fields)

/-! ## The visits after one -/

/-- A visit other than that of the root, to a known type and with a hint that can be declared. -/
def Visit.Fits (r : Registry) (v : Visit) : Prop :=
  v.isName = false ∧ isIdentifier v.hint ∧ r.Knows v.type

theorem isIdentifier_item {hint : String} (h : isIdentifier hint) :
    isIdentifier (hint ++ "Item") := by
  have hitem : "Item".toList.all isIdentifierRest := by decide
  exact isIdentifier_append h (List.all_eq_true.1 hitem)

/-- **The next visits** are to the parts of what is visited, and their hints are made of keys or of
the hint before. -/
theorem Visit.mem_next_cases {hint : String} {d : Descriptor} {v : Visit}
    (hv : v ∈ Visit.next hint d) :
    v.isName = false ∧ v.type ∈ d.children ∧
      ((∃ fields key, d = .object fields ∧ key ∈ fields.keys ∧ v.hint = pascalCase key) ∨
        v.hint = hint ++ "Item" ∨ v.hint = hint) := by
  cases d with
  | object fields =>
    obtain ⟨⟨key, f⟩, hf, rfl⟩ := List.mem_map.1 hv
    exact ⟨rfl, List.mem_map_of_mem hf, .inl ⟨fields, key, rfl, List.mem_map_of_mem hf, rfl⟩⟩
  | array item =>
    obtain rfl := List.mem_singleton.1 hv
    exact ⟨rfl, List.mem_cons_self, .inr (.inl rfl)⟩
  | union members =>
    obtain ⟨id, hid, rfl⟩ := List.mem_map.1 hv
    exact ⟨rfl, hid, .inr (.inr rfl)⟩

theorem Visit.of_mem_next {hint : String} (hhint : isIdentifier hint) {d : Descriptor} {v : Visit}
    (hv : v ∈ Visit.next hint d) :
    v.isName = false ∧ isIdentifier v.hint ∧ v.type ∈ d.children := by
  obtain ⟨hno, htype, ⟨fields, key, -, -, hkey⟩ | hitem | hsame⟩ := mem_next_cases hv
  · exact ⟨hno, hkey ▸ isIdentifier_pascalCase key, htype⟩
  · exact ⟨hno, hitem ▸ isIdentifier_item hhint, htype⟩
  · exact ⟨hno, hsame ▸ hhint, htype⟩

theorem Visit.exists_mem_next (hint : String) {d : Descriptor} {c : TypeId} (hc : c ∈ d.children) :
    ∃ v ∈ Visit.next hint d, v.type = c := by
  cases d with
  | object fields =>
    obtain ⟨e, he, rfl⟩ := List.mem_map.1 hc
    exact ⟨_, List.mem_map_of_mem he, rfl⟩
  | array item =>
    rw [Descriptor.children, List.mem_singleton] at hc
    subst hc
    exact ⟨_, List.mem_cons_self, rfl⟩
  | union members => exact ⟨_, List.mem_map_of_mem hc, rfl⟩

/-! ## Names -/

/-- The objects that have been seen have names, and those are new. -/
structure Naming (r : Registry) (before : TakenNames) (seen : List NodeId) (taken : TakenNames)
    (names : Names) : Prop where
  /-- Just the objects that have been seen are named. -/
  mem_ids_iff : ∀ id, id ∈ names.map Prod.fst ↔ id ∈ seen ∧ r.IsObject id
  /-- An object has one name. -/
  nodup_ids : (names.map Prod.fst).Nodup
  /-- A name belongs to one object. -/
  nodup_names : (names.map Prod.snd).Nodup
  isIdentifier : ∀ e ∈ names, isIdentifier e.2
  mem_taken : ∀ e ∈ names, e.2 ∈ taken
  /-- A name was not taken before. -/
  not_mem_before : ∀ e ∈ names, e.2 ∉ before
  /-- Names stay taken. -/
  taken_of_before : ∀ name ∈ before, name ∈ taken

namespace Naming

variable {r : Registry} {before taken : TakenNames} {seen : List NodeId} {names : Names}
  {id : NodeId}

theorem start (r : Registry) (taken : TakenNames) : Naming r taken [] taken [] where
  mem_ids_iff id := by simp
  nodup_ids := List.nodup_nil
  nodup_names := List.nodup_nil
  isIdentifier e he := absurd he List.not_mem_nil
  mem_taken e he := absurd he List.not_mem_nil
  not_mem_before e he := absurd he List.not_mem_nil
  taken_of_before name h := h

/-- An object that is met for the first time gets a name that is free. -/
theorem object (h : Naming r before seen taken names) (hid : id ∉ seen) (hobj : r.IsObject id)
    {name : String} (hname : Text.isIdentifier name) (hfree : name ∉ taken) :
    Naming r before (id :: seen) (taken.insert name) (names ++ [(id, name)]) := by
  have hunnamed : id ∉ names.map Prod.fst := fun hmem ↦ hid ((h.mem_ids_iff id).1 hmem).1
  have hunused : name ∉ names.map Prod.snd := by
    intro hmem
    obtain ⟨e, he, rfl⟩ := List.mem_map.1 hmem
    exact hfree (h.mem_taken e he)
  have hcases : ∀ e ∈ names ++ [(id, name)], e ∈ names ∨ e = (id, name) := fun e he ↦ by
    rwa [List.mem_append, List.mem_singleton] at he
  refine ⟨fun x ↦ ?_, ?_, ?_, fun e he ↦ ?_, fun e he ↦ ?_, fun e he ↦ ?_, fun x hx ↦ ?_⟩
  · rw [List.map_append, List.mem_append, h.mem_ids_iff, List.map_singleton, List.mem_singleton,
      List.mem_cons]
    refine ⟨?_, ?_⟩
    · rintro (⟨hx, hobj⟩ | rfl)
      · exact ⟨.inr hx, hobj⟩
      · exact ⟨.inl rfl, hobj⟩
    · rintro ⟨rfl | hx, hobj⟩
      · exact .inr rfl
      · exact .inl ⟨hx, hobj⟩
  · rw [List.map_append]
    exact h.nodup_ids.append (List.nodup_singleton id) (by simpa using hunnamed)
  · rw [List.map_append]
    exact h.nodup_names.append (List.nodup_singleton name) (by simpa using hunused)
  · rcases hcases e he with he | rfl
    · exact h.isIdentifier e he
    · exact hname
  · rw [Std.TreeSet.mem_insert]
    rcases hcases e he with he | rfl
    · exact .inr (h.mem_taken e he)
    · exact .inl Std.ReflCmp.compare_self
  · rcases hcases e he with he | rfl
    · exact h.not_mem_before e he
    · exact fun hmem ↦ hfree (h.taken_of_before name hmem)
  · rw [Std.TreeSet.mem_insert]
    exact .inr (h.taken_of_before x hx)

/-- What is no object gets no name. -/
theorem other (h : Naming r before seen taken names) (hno : ¬ r.IsObject id) :
    Naming r before (id :: seen) taken names :=
  { h with
    mem_ids_iff := fun x ↦ by
      rw [h.mem_ids_iff, List.mem_cons]
      refine ⟨fun ⟨hx, hobj⟩ ↦ ⟨.inr hx, hobj⟩, ?_⟩
      rintro ⟨rfl | hx, hobj⟩
      · exact absurd hobj hno
      · exact ⟨hx, hobj⟩ }

end Naming

/-! ## The walk -/

section Steps

variable {find : NameFinder} {r : Registry} {seen : List NodeId} {taken : TakenNames}
  {names : Names} {id : NodeId} {hint : String} {isName : Bool} {queue : List Visit}

theorem assignNames_nil : assignNames find r seen taken names [] = (.ok names, taken) := by
  rw [assignNames]

theorem assignNames_scalar {kind : Scalar} :
    assignNames find r seen taken names (⟨.scalar kind, hint, isName⟩ :: queue) =
      assignNames find r seen taken names queue := by
  rw [assignNames]

theorem assignNames_of_mem (hs : id ∈ seen) :
    assignNames find r seen taken names (⟨.node id, hint, isName⟩ :: queue) =
      assignNames find r seen taken names queue := by
  rw [assignNames, dif_pos hs]

/-- An object is named, as it says itself or afresh. -/
theorem assignNames_of_object {fields : Fields} (hs : id ∉ seen)
    (hg : r.get? id = some (.object fields)) :
    assignNames find r seen taken names (⟨.node id, hint, isName⟩ :: queue) =
      if isName then
        assignNames find r (id :: seen) taken (names ++ [(id, hint)])
          (queue ++ Visit.next hint (.object fields))
      else
        assignNames find r (id :: seen) (taken.insert (find taken hint))
          (names ++ [(id, find taken hint)]) (queue ++ Visit.next hint (.object fields)) := by
  rw [assignNames, dif_neg hs]
  split
  · next hn =>
    rw [hg] at hn
    cases hn
  · next d hd =>
    obtain rfl := Option.some.inj (hg.symm.trans hd)
    rfl

theorem assignNames_of_not_isObject {d : Descriptor} (hs : id ∉ seen) (hg : r.get? id = some d)
    (hno : ¬ r.IsObject id) :
    assignNames find r seen taken names (⟨.node id, hint, isName⟩ :: queue) =
      assignNames find r (id :: seen) taken names (queue ++ Visit.next hint d) := by
  rw [assignNames, dif_neg hs]
  split
  · next hn =>
    rw [hg] at hn
    cases hn
  · next d' hd =>
    obtain rfl := Option.some.inj (hg.symm.trans hd)
    cases d with
    | object fields => exact absurd ⟨fields, hg⟩ hno
    | _ => rfl

end Steps

theorem not_isObject_of_get? {r : Registry} {id : NodeId} {d : Descriptor}
    (hg : r.get? id = some d) (hd : ∀ fields, d ≠ .object fields) : ¬ r.IsObject id := by
  rintro ⟨fields, hfields⟩
  exact hd fields (Option.some.inj (hg.symm.trans hfields))

/-- Induction along a walk: a visit is passed over, or leads nowhere, or the node is visited.  An
object has its name given or is named afresh, and what is no object gets no name. -/
theorem assignNames_induction (find : NameFinder) (r : Registry)
    {motive : List NodeId → TakenNames → Names → List Visit → Prop}
    (nil : ∀ seen taken names, motive seen taken names [])
    (scalar : ∀ seen taken names kind hint isName queue, motive seen taken names queue →
      motive seen taken names (⟨.scalar kind, hint, isName⟩ :: queue))
    (again : ∀ seen taken names id hint isName queue, id ∈ seen → motive seen taken names queue →
      motive seen taken names (⟨.node id, hint, isName⟩ :: queue))
    (missing : ∀ seen taken names id hint isName queue, id ∉ seen → r.get? id = none →
      motive seen taken names (⟨.node id, hint, isName⟩ :: queue))
    (given : ∀ seen taken names id hint queue fields, id ∉ seen →
      r.get? id = some (.object fields) →
      motive (id :: seen) taken (names ++ [(id, hint)])
        (queue ++ Visit.next hint (.object fields)) →
      motive seen taken names (⟨.node id, hint, true⟩ :: queue))
    (object : ∀ seen taken names id hint queue fields, id ∉ seen →
      r.get? id = some (.object fields) →
      motive (id :: seen) (taken.insert (find taken hint))
        (names ++ [(id, find taken hint)]) (queue ++ Visit.next hint (.object fields)) →
      motive seen taken names (⟨.node id, hint, false⟩ :: queue))
    (other : ∀ seen taken names id hint isName queue d, id ∉ seen → r.get? id = some d →
      ¬ r.IsObject id → motive (id :: seen) taken names (queue ++ Visit.next hint d) →
      motive seen taken names (⟨.node id, hint, isName⟩ :: queue))
    (seen : List NodeId) (taken : TakenNames) (names : Names) (queue : List Visit) :
    motive seen taken names queue := by
  induction seen, taken, names, queue using assignNames.induct find r with
  | case1 => exact nil _ _ _
  | case2 _ _ _ _ _ _ _ ih => exact scalar _ _ _ _ _ _ _ ih
  | case3 _ _ _ _ _ _ _ hs ih => exact again _ _ _ _ _ _ _ hs ih
  | case4 _ _ _ _ _ _ _ hs hg => exact missing _ _ _ _ _ _ _ hs hg
  | case5 _ _ _ _ _ _ hs _ hg _ _ _ ih => exact given _ _ _ _ _ _ _ hs hg ih
  | case6 _ _ _ _ _ _ _ hs _ hg hno _ _ _ _ ih =>
    obtain rfl := Bool.eq_false_iff.2 hno
    exact object _ _ _ _ _ _ _ hs hg ih
  | case7 _ _ _ _ _ _ _ hs d hg _ _ _ hobj ih =>
    refine other _ _ _ _ _ _ _ d hs hg (not_isObject_of_get? hg fun fields he ↦ ?_) ih
    subst he
    exact hobj fields hg rfl HEq.rfl

/-- A walk that is under way, with the visits still to be made. -/
structure Walk (r : Registry) (before : TakenNames) (seen : List NodeId) (taken : TakenNames)
    (names : Names) (queue : List Visit) : Prop extends Naming r before seen taken names where
  fits : ∀ v ∈ queue, v.Fits r
  /-- What a seen node refers to has been seen or will be. -/
  covered : ∀ a ∈ seen, ∀ b, r.Points a b → b ∈ seen ∨ ∃ v ∈ queue, v.type = .node b

namespace Walk

variable {r : Registry} {before taken : TakenNames} {seen : List NodeId} {names : Names}
  {queue : List Visit} {id : NodeId} {hint : String} {v : Visit}

/-- A visit is passed over if it is not to a node that has not been seen. -/
theorem pass (h : Walk r before seen taken names (v :: queue))
    (hv : ∀ id, v.type = .node id → id ∈ seen) : Walk r before seen taken names queue where
  toNaming := h.toNaming
  fits w hw := h.fits w (List.mem_cons_of_mem v hw)
  covered a ha b hab := by
    rcases h.covered a ha b hab with hb | ⟨w, hw, hwb⟩
    · exact .inl hb
    · rcases List.mem_cons.1 hw with rfl | hw
      · exact .inl (hv b hwb)
      · exact .inr ⟨w, hw, hwb⟩

/-- **One visit**: the node is named if it is an object, and what it refers to is put at the end of
the queue. -/
theorem visit (hr : r.WellFormed) {d : Descriptor} (hg : r.get? id = some d)
    (hhint : isIdentifier hint) (hfits : ∀ v ∈ queue, v.Fits r)
    (hcovered : ∀ a ∈ seen, ∀ b, r.Points a b → b ∈ seen ∨ b = id ∨ ∃ v ∈ queue, v.type = .node b)
    (hn : Naming r before (id :: seen) taken names) :
    Walk r before (id :: seen) taken names (queue ++ Visit.next hint d) where
  toNaming := hn
  fits v hv := by
    rcases List.mem_append.1 hv with hv | hv
    · exact hfits v hv
    · obtain ⟨hno, hident, htype⟩ := Visit.of_mem_next hhint hv
      exact ⟨hno, hident, hr.knows_child hg htype⟩
  covered a ha b hab := by
    rcases List.mem_cons.1 ha with rfl | ha
    · obtain ⟨d', hd', hb⟩ := hab
      obtain rfl := Option.some.inj (hg.symm.trans hd')
      obtain ⟨v, hv, hvb⟩ := Visit.exists_mem_next hint hb
      exact .inr ⟨v, List.mem_append_right _ hv, hvb⟩
    · rcases hcovered a ha b hab with hb | rfl | ⟨v, hv, hvb⟩
      · exact .inl (List.mem_cons_of_mem _ hb)
      · exact .inl List.mem_cons_self
      · exact .inr ⟨v, List.mem_append_left _ hv, hvb⟩

/-- The next visit is to a node that has not been seen. -/
theorem visit_head (hr : r.WellFormed) {isName : Bool} {taken' : TakenNames} {names' : Names}
    (h : Walk r before seen taken names (⟨.node id, hint, isName⟩ :: queue)) {d : Descriptor}
    (hg : r.get? id = some d) (hn : Naming r before (id :: seen) taken' names') :
    Walk r before (id :: seen) taken' names' (queue ++ Visit.next hint d) := by
  obtain ⟨-, hhint, -⟩ := h.fits _ List.mem_cons_self
  refine visit hr hg hhint (fun v hv ↦ h.fits v (List.mem_cons_of_mem _ hv)) ?_ hn
  intro a ha b hab
  rcases h.covered a ha b hab with hb | ⟨v, hv, hvb⟩
  · exact .inl hb
  · rcases List.mem_cons.1 hv with rfl | hv
    · exact .inr (.inl (TypeId.node.inj hvb).symm)
    · exact .inr (.inr ⟨v, hv, hvb⟩)

/-- What a walk comes to in the end: it has seen the nodes it had seen, all that its queue leads to,
and nothing is open. -/
def Ends (r : Registry) (before : TakenNames) (seen : List NodeId) (names : Names)
    (queue : List Visit) (result : Except EmitError Names × TakenNames) : Prop :=
  ∃ seen' taken' names', result = (.ok names', taken') ∧
    Walk r before seen' taken' names' [] ∧ (∀ id ∈ seen, id ∈ seen') ∧
      (∀ v ∈ queue, ∀ id, v.type = .node id → id ∈ seen') ∧ ∀ e ∈ names, e ∈ names'

theorem Ends.cons {result : Except EmitError Names × TakenNames}
    (h : Ends r before seen names queue result) (hv : ∀ id, v.type = .node id → id ∈ seen) :
    Ends r before seen names (v :: queue) result := by
  obtain ⟨seen', taken', names', hrun, hend, hseen, hqueue, hnames⟩ := h
  refine ⟨seen', taken', names', hrun, hend, hseen, fun w hw id hid ↦ ?_, hnames⟩
  rcases List.mem_cons.1 hw with rfl | hw
  · exact hseen id (hv id hid)
  · exact hqueue w hw id hid

theorem Ends.visit {isName : Bool} {later : List Visit} {more : Names}
    {result : Except EmitError Names × TakenNames}
    (h : Ends r before (id :: seen) more (queue ++ later) result)
    (hmore : ∀ e ∈ names, e ∈ more) :
    Ends r before seen names (⟨.node id, hint, isName⟩ :: queue) result := by
  obtain ⟨seen', taken', names', hrun, hend, hseen, hqueue, hnames⟩ := h
  refine ⟨seen', taken', names', hrun, hend, fun x hx ↦ hseen x (List.mem_cons_of_mem _ hx),
    fun w hw x hx ↦ ?_, fun e he ↦ hnames e (hmore e he)⟩
  rcases List.mem_cons.1 hw with rfl | hw
  · cases hx
    exact hseen id List.mem_cons_self
  · exact hqueue w (List.mem_append_left _ hw) x hx

/-- **A walk ends well.** -/
theorem run (hr : r.WellFormed) (h : Walk r before seen taken names queue) :
    Ends r before seen names queue (assignNames freshName r seen taken names queue) := by
  induction seen, taken, names, queue using assignNames_induction freshName r with
  | nil seen taken names =>
    rw [assignNames_nil]
    exact ⟨seen, taken, names, rfl, h, fun _ hx ↦ hx, fun v hv ↦ absurd hv List.not_mem_nil,
      fun _ he ↦ he⟩
  | scalar seen taken names kind hint isName queue ih =>
    rw [assignNames_scalar]
    have hscalar : ∀ id, TypeId.scalar kind = .node id → id ∈ seen := fun id hid ↦ by cases hid
    exact (ih (h.pass hscalar)).cons hscalar
  | again seen taken names id hint isName queue hs ih =>
    rw [assignNames_of_mem hs]
    have hseen : ∀ x, TypeId.node id = .node x → x ∈ seen := fun x hx ↦ by
      cases hx
      exact hs
    exact (ih (h.pass hseen)).cons hseen
  | missing seen taken names id hint isName queue hs hg =>
    obtain ⟨-, -, d, hd⟩ := h.fits _ List.mem_cons_self
    rw [hg] at hd
    cases hd
  | given seen taken names id hint queue fields hs hg =>
    -- only the root has its name given
    obtain ⟨hno, -, -⟩ := h.fits _ List.mem_cons_self
    cases hno
  | object seen taken names id hint queue fields hs hg ih =>
    obtain ⟨-, hhint, -⟩ := h.fits _ List.mem_cons_self
    have hnaming := h.toNaming.object hs ⟨fields, hg⟩ (isIdentifier_freshName taken hhint)
      (freshName_not_mem taken hint)
    rw [assignNames_of_object hs hg, if_neg Bool.false_ne_true]
    exact (ih (h.visit_head hr hg hnaming)).visit fun e he ↦ List.mem_append_left _ he
  | other seen taken names id hint isName queue d hs hg hno ih =>
    rw [assignNames_of_not_isObject hs hg hno]
    exact (ih (h.visit_head hr hg (h.toNaming.other hno))).visit fun _ he ↦ he

/-- Nothing is open when the queue is empty: what has been seen leads only to what has been seen. -/
theorem mem_of_leads (h : Walk r before seen taken names []) {a b : NodeId} (ha : a ∈ seen)
    (hab : r.Leads a b) : b ∈ seen := by
  induction hab with
  | refl => exact ha
  | tail _ hbc ih =>
    rcases h.covered _ ih _ hbc with hc | ⟨v, hv, -⟩
    · exact hc
    · exact absurd hv List.not_mem_nil

end Walk

/-! ## From the root -/

/-- The names under which a structure is declared. -/
def declaredNames (s : Structure) (rootName : String) (names : Names) : List String :=
  (if s.hasObjectRoot then [] else [rootName]) ++ names.map Prod.snd

theorem hasObjectRoot_iff {s : Structure} :
    s.hasObjectRoot ↔ ∃ id, s.root = .node id ∧ s.types.IsObject id := by
  rw [Structure.hasObjectRoot]
  split
  · next fields hd =>
    obtain ⟨id, hid, hg⟩ := describe?_eq_some_iff.1 hd
    exact iff_of_true rfl ⟨id, hid, fields, hg⟩
  · next hno =>
    refine iff_of_false Bool.false_ne_true ?_
    rintro ⟨id, hid, fields, hg⟩
    exact hno fields (describe?_eq_some_iff.2 ⟨id, hid, hg⟩)

theorem hasObjectRoot_node_iff {s : Structure} {root : NodeId} (hroot : s.root = .node root) :
    s.hasObjectRoot ↔ s.types.IsObject root := by
  rw [hasObjectRoot_iff]
  constructor
  · rintro ⟨id, hid, hobj⟩
    obtain rfl := TypeId.node.inj (hroot.symm.trans hid)
    exact hobj
  · exact fun hobj ↦ ⟨root, hroot, hobj⟩

theorem not_hasObjectRoot_of_scalar {s : Structure} {kind : Scalar}
    (hroot : s.root = .scalar kind) : ¬ s.hasObjectRoot := fun h ↦ by
  obtain ⟨id, hid, -⟩ := hasObjectRoot_iff.1 h
  rw [hroot] at hid
  cases hid

/-- All objects of a structure have names, and the structure is declared under new ones. -/
structure NamesAll (s : Structure) (before : TakenNames) (rootName : String) (names : Names)
    (taken : TakenNames) : Prop where
  mem_ids_iff : ∀ id, id ∈ names.map Prod.fst ↔ s.types.IsObject id
  nodup_ids : (names.map Prod.fst).Nodup
  /-- An object at the root has the name of the root. -/
  mem_root : ∀ id, s.root = .node id → s.types.IsObject id → (id, rootName) ∈ names
  nodup : (declaredNames s rootName names).Nodup
  isIdentifier : ∀ name ∈ declaredNames s rootName names, Text.isIdentifier name
  mem_taken : ∀ name ∈ declaredNames s rootName names, name ∈ taken
  not_mem_before : ∀ name ∈ declaredNames s rootName names, name ∉ before
  taken_of_before : ∀ name ∈ before, name ∈ taken

section Root

variable {s : Structure} {before taken : TakenNames} {rootName : String} {seen : List NodeId}
  {names : Names}

/-- Where the root is an object, its name is one of those of the walk. -/
theorem Naming.namesAll_of_object (h : Naming s.types before seen taken names)
    (hseen : ∀ id, s.types.IsObject id → id ∈ seen) {root : NodeId} (hroot : s.root = .node root)
    (hobj : s.types.IsObject root) (hmem : (root, rootName) ∈ names) :
    NamesAll s before rootName names taken := by
  have hdeclared : declaredNames s rootName names = names.map Prod.snd := by
    rw [declaredNames, if_pos ((hasObjectRoot_node_iff hroot).2 hobj), List.nil_append]
  refine ⟨fun id ↦ ?_, h.nodup_ids, fun id hid _ ↦ ?_, ?_, ?_, ?_, ?_, h.taken_of_before⟩
  · rw [h.mem_ids_iff]
    exact ⟨And.right, fun hid ↦ ⟨hseen id hid, hid⟩⟩
  · obtain rfl := TypeId.node.inj (hroot.symm.trans hid)
    exact hmem
  · rw [hdeclared]
    exact h.nodup_names
  all_goals rw [hdeclared, List.forall_mem_map]
  · exact h.isIdentifier
  · exact h.mem_taken
  · exact h.not_mem_before

/-- Where the root is no object, its name is one more; it was taken before the walk. -/
theorem Naming.namesAll_of_not_object (h : Naming s.types (before.insert rootName) seen taken names)
    (hseen : ∀ id, s.types.IsObject id → id ∈ seen) (hno : ¬ s.hasObjectRoot)
    (hname : Text.isIdentifier rootName) (hfree : rootName ∉ before) :
    NamesAll s before rootName names taken := by
  have hdeclared : declaredNames s rootName names = rootName :: names.map Prod.snd := by
    rw [declaredNames, if_neg hno, List.singleton_append]
  have hroot : rootName ∈ before.insert rootName := Std.TreeSet.mem_insert_self
  have hold : ∀ name ∈ before, name ∈ before.insert rootName := fun name hmem ↦
    Std.TreeSet.mem_insert.2 (.inr hmem)
  refine ⟨fun id ↦ ?_, h.nodup_ids, fun id hid hobj ↦ ?_, ?_, ?_, ?_, ?_,
    fun name hmem ↦ h.taken_of_before name (hold name hmem)⟩
  · rw [h.mem_ids_iff]
    exact ⟨And.right, fun hid ↦ ⟨hseen id hid, hid⟩⟩
  · exact absurd (hasObjectRoot_iff.2 ⟨id, hid, hobj⟩) hno
  · rw [hdeclared, List.nodup_cons]
    refine ⟨fun hmem ↦ ?_, h.nodup_names⟩
    obtain ⟨e, he, hroot'⟩ := List.mem_map.1 hmem
    exact h.not_mem_before e he (hroot' ▸ hroot)
  all_goals rw [hdeclared, List.forall_mem_cons, List.forall_mem_map]
  · exact ⟨hname, h.isIdentifier⟩
  · exact ⟨h.taken_of_before _ hroot, h.mem_taken⟩
  · exact ⟨hfree, fun e he hmem ↦ h.not_mem_before e he (hold e.2 hmem)⟩

/-- The walk that begins at the root of a structure, under a given name. -/
def assignRoot (s : Structure) (before : TakenNames) (rootName : String) :
    Except EmitError Names × TakenNames :=
  assignNames freshName s.types [] (before.insert rootName) []
    [{ type := s.root, hint := rootName, isName := true }]

/-- The visit to the root comes first, and only the names may differ after it. -/
theorem Walk.first (hr : s.types.WellFormed) {root : NodeId} {d : Descriptor}
    (hg : s.types.get? root = some d) (hname : isIdentifier rootName)
    (hn : Naming s.types before [root] taken names) :
    Walk s.types before [root] taken names ([] ++ Visit.next rootName d) :=
  Walk.visit hr hg hname (fun _ hv ↦ absurd hv List.not_mem_nil)
    (fun _ ha ↦ absurd ha List.not_mem_nil) hn

/-- In a structure that is what its root reaches, a walk from the root has seen all objects. -/
theorem Walk.mem_of_isObject (hall : ∀ id d, s.types.get? id = some d → id ∈ s.reachable)
    {root : NodeId} (hroot : s.root = .node root) (h : Walk s.types before seen taken names [])
    (hmem : root ∈ seen) (id : NodeId) (hobj : s.types.IsObject id) : id ∈ seen := by
  obtain ⟨fields, hid⟩ := hobj
  obtain ⟨n, hn, hl⟩ := Structure.mem_reachable_iff.1 (hall id _ hid)
  obtain rfl := TypeId.node.inj (hroot.symm.trans hn)
  exact h.mem_of_leads hmem hl

theorem exists_assignRoot_of_object (hr : s.types.WellFormed)
    (hall : ∀ id d, s.types.get? id = some d → id ∈ s.reachable) (hname : isIdentifier rootName)
    (hfree : rootName ∉ before) {root : NodeId} (hroot : s.root = .node root)
    (hobj : s.types.IsObject root) :
    ∃ names taken, assignRoot s before rootName = (.ok names, taken) ∧
      NamesAll s before rootName names taken := by
  obtain ⟨fields, hg⟩ := hobj
  have hstart := (Naming.start s.types before).object List.not_mem_nil ⟨fields, hg⟩ hname hfree
  obtain ⟨seen, taken, names, hrun, hend, hkept, -, hnames⟩ :=
    (Walk.first hr hg hname hstart).run hr
  have hseen := hend.mem_of_isObject hall hroot (hkept root List.mem_cons_self)
  refine ⟨names, taken, ?_, ?_⟩
  · rw [assignRoot, hroot, assignNames_of_object List.not_mem_nil hg, if_pos rfl]
    exact hrun
  · exact hend.toNaming.namesAll_of_object hseen hroot ⟨fields, hg⟩ (hnames _ List.mem_cons_self)

theorem exists_assignRoot_of_not_object (hr : s.types.WellFormed) (hknown : s.types.Knows s.root)
    (hall : ∀ id d, s.types.get? id = some d → id ∈ s.reachable) (hname : isIdentifier rootName)
    (hfree : rootName ∉ before) (hno : ¬ s.hasObjectRoot) :
    ∃ names taken, assignRoot s before rootName = (.ok names, taken) ∧
      NamesAll s before rootName names taken := by
  have hstart := Naming.start s.types (before.insert rootName)
  cases hroot : s.root with
  | scalar kind =>
    have hempty : ∀ id, ¬ s.types.IsObject id := by
      rintro id ⟨fields, hg⟩
      obtain ⟨n, hn, -⟩ := Structure.mem_reachable_iff.1 (hall id _ hg)
      rw [hroot] at hn
      cases hn
    refine ⟨[], before.insert rootName, ?_, ?_⟩
    · rw [assignRoot, hroot, assignNames_scalar, assignNames_nil]
    · exact hstart.namesAll_of_not_object (fun id hid ↦ absurd hid (hempty id)) hno hname hfree
  | node root =>
    have hobj : ¬ s.types.IsObject root := mt (hasObjectRoot_node_iff hroot).2 hno
    rw [hroot] at hknown
    obtain ⟨d, hg⟩ := hknown
    obtain ⟨seen, taken, names, hrun, hend, hkept, -, -⟩ :=
      (Walk.first hr hg hname (hstart.other hobj)).run hr
    have hseen := hend.mem_of_isObject hall hroot (hkept root List.mem_cons_self)
    refine ⟨names, taken, ?_, ?_⟩
    · rw [assignRoot, hroot, assignNames_of_not_isObject List.not_mem_nil hg hobj]
      exact hrun
    · exact hend.toNaming.namesAll_of_not_object hseen hno hname hfree

/-- **All objects of a structure are named**, if the root reaches all of it. -/
theorem exists_assignRoot_eq (hr : s.types.WellFormed) (hknown : s.types.Knows s.root)
    (hall : ∀ id d, s.types.get? id = some d → id ∈ s.reachable) (hname : isIdentifier rootName)
    (hfree : rootName ∉ before) :
    ∃ names taken, assignRoot s before rootName = (.ok names, taken) ∧
      NamesAll s before rootName names taken := by
  by_cases hobj : s.hasObjectRoot
  · obtain ⟨root, hroot, hobj⟩ := hasObjectRoot_iff.1 hobj
    exact exists_assignRoot_of_object hr hall hname hfree hroot hobj
  · exact exists_assignRoot_of_not_object hr hknown hall hname hfree hobj

end Root

end Silhouette
