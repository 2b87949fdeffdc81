import Silhouette.Proofs.Declaration.Adds
import Silhouette.Proofs.Registry.Acyclic

/-!
# Types that are referred to and missing

A structure `Lacks` a node if the root leads to it and it is not registered.  The walk that names
objects goes wherever the root leads, so it fails just if something is lacking, and with something
that is (`Structure.missing_of_assignRoot`, `Structure.complete_of_assignRoot`).

What is written out afterwards is looked up again, by a recursion of its own.  It meets no node that
the walk has not met, and so no fault is left for it: without cycles, everything that a named type
consists of can be written (`exists_typeExpr_of_complete`), and all declarations can be made
(`exists_declarationsOf_of_assignRoot`).
-/

set_option autoImplicit false

namespace Silhouette

open Registry Text

/-- The root leads to a node that is not registered. -/
def Structure.Lacks (s : Structure) (id : NodeId) : Prop :=
  (∃ root, s.root = .node root ∧ s.types.Leads root id) ∧ s.types.get? id = none

/-! ## The walk -/

/-- An error says that a node is missing to which some visits lead. -/
def Reports (r : Registry) (queue : List Visit) (error : EmitError) : Prop :=
  ∃ v ∈ queue, ∃ a id, v.type = .node a ∧ r.Leads a id ∧ r.get? id = none ∧ error = .missingType id

namespace Reports

variable {r : Registry} {queue : List Visit} {error : EmitError}

theorem cons (h : Reports r queue error) (v : Visit) : Reports r (v :: queue) error := by
  obtain ⟨w, hw, hrest⟩ := h
  exact ⟨w, List.mem_cons_of_mem _ hw, hrest⟩

/-- Where the parts of a node lead, the node itself leads. -/
theorem of_next {id : NodeId} {hint : String} {isName : Bool} {d : Descriptor}
    (hg : r.get? id = some d) (h : Reports r (queue ++ Visit.next hint d) error) :
    Reports r (⟨.node id, hint, isName⟩ :: queue) error := by
  obtain ⟨v, hv, a, b, hva, hab, hb⟩ := h
  rcases List.mem_append.1 hv with hv | hv
  · exact ⟨v, List.mem_cons_of_mem _ hv, a, b, hva, hab, hb⟩
  · have hpart : v.type ∈ d.children := Visit.map_type_next hint d ▸ List.mem_map_of_mem hv
    exact ⟨_, List.mem_cons_self, id, b, rfl, .head ⟨d, hg, hva ▸ hpart⟩ hab, hb⟩

end Reports

/-- **A walk fails at a node that is missing**, and its queue leads there. -/
theorem missing_of_assignNames {r : Registry} {seen : List NodeId} {taken taken' : TakenNames}
    {names : Names} {queue : List Visit} {error : EmitError}
    (h : assignNames freshName r seen taken names queue = (.error error, taken')) :
    Reports r queue error := by
  induction seen, taken, names, queue using assignNames_induction freshName r with
  | nil =>
    rw [assignNames_nil] at h
    cases h
  | scalar seen taken names kind hint isName queue ih =>
    rw [assignNames_scalar] at h
    exact (ih h).cons _
  | again seen taken names id hint isName queue hs ih =>
    rw [assignNames_of_mem hs] at h
    exact (ih h).cons _
  | missing seen taken names id hint isName queue hs hg =>
    rw [assignNames_of_none hs hg] at h
    cases h
    exact ⟨_, List.mem_cons_self, id, id, rfl, .refl, hg, rfl⟩
  | given seen taken names id hint queue fields hs hg ih =>
    rw [assignNames_of_object hs hg, if_pos rfl] at h
    exact (ih h).of_next hg
  | object seen taken names id hint queue fields hs hg ih =>
    rw [assignNames_of_object hs hg, if_neg Bool.false_ne_true] at h
    exact (ih h).of_next hg
  | other seen taken names id hint isName queue d hs hg hno ih =>
    rw [assignNames_of_not_isObject hs hg hno] at h
    exact (ih h).of_next hg

/-- Everything that an id leads to is registered, and has a name if it is an object. -/
def Complete (r : Registry) (names : Names) (id : TypeId) : Prop :=
  ∀ a b, id = .node a → r.Leads a b →
    (∃ d, r.get? b = some d) ∧ (r.IsObject b → b ∈ names.map Prod.fst)

theorem Complete.part {r : Registry} {names : Names} {id : NodeId} (h : Complete r names (.node id))
    {d : Descriptor} (hg : r.get? id = some d) {c : TypeId} (hc : c ∈ d.children) :
    Complete r names c := by
  rintro a b rfl hab
  exact h id b rfl (.head ⟨d, hg, hc⟩ hab)

namespace Structure

variable {s : Structure} {before taken : TakenNames} {rootName : String} {names : Names}

theorem missing_of_assignRoot {error : EmitError}
    (h : assignRoot s before rootName = (.error error, taken)) :
    ∃ id, s.Lacks id ∧ error = .missingType id := by
  obtain ⟨v, hv, a, id, hva, hab, hid, herror⟩ := missing_of_assignNames h
  obtain rfl := List.mem_singleton.1 hv
  exact ⟨id, ⟨⟨a, hva, hab⟩, hid⟩, herror⟩

theorem complete_of_assignRoot (hname : isIdentifier rootName)
    (h : assignRoot s before rootName = (.ok names, taken)) : Complete s.types names s.root := by
  obtain ⟨found, -, hfound, -, hids, -⟩ := exists_discovers_of_assignRoot h hname
  intro a b hroot hab
  have hb : b ∈ found := hfound.mem_of_leads (List.mem_singleton.2 hroot.symm) hab
  refine ⟨mem_ids_iff.1 (hfound.mem_ids b hb), fun hobj ↦ ?_⟩
  rw [hids]
  exact List.mem_filter.2 ⟨hb, isObject_iff.2 hobj⟩

/-- **The walk succeeds just if nothing is lacking.** -/
theorem exists_assignRoot_iff (hname : isIdentifier rootName) :
    (∃ names taken, assignRoot s before rootName = (.ok names, taken)) ↔ ∀ id, ¬ s.Lacks id := by
  constructor
  · rintro ⟨names, taken, h⟩ id ⟨⟨root, hroot, hleads⟩, hid⟩
    obtain ⟨⟨d, hd⟩, -⟩ := complete_of_assignRoot hname h root id hroot hleads
    rw [hid] at hd
    cases hd
  · intro hno
    rcases h : assignRoot s before rootName with ⟨error | names, taken⟩
    · obtain ⟨id, hid, -⟩ := missing_of_assignRoot h
      exact absurd hid (hno id)
    · exact ⟨names, taken, rfl⟩

/-- Whoever has a name is an object to which the root leads. -/
theorem entry_of_assignRoot (hname : isIdentifier rootName)
    (h : assignRoot s before rootName = (.ok names, taken)) {entry : NodeId × String}
    (hentry : entry ∈ names) :
    s.types.IsObject entry.1 ∧ ∃ root, s.root = .node root ∧ s.types.Leads root entry.1 := by
  obtain ⟨found, -, hfound, -, hids, -⟩ := exists_discovers_of_assignRoot h hname
  have hmem : entry.1 ∈ found.filter s.types.isObject := hids ▸ List.mem_map_of_mem hentry
  obtain ⟨hmem, hobj⟩ := List.mem_filter.1 hmem
  obtain ⟨root, hroot, hleads⟩ := hfound.leads _ hmem
  exact ⟨isObject_iff.1 hobj, root, (List.mem_singleton.1 hroot).symm, hleads⟩

end Structure

/-! ## Writing out -/

section Writing

variable {literals : Literals} {r : Registry} {names : Names}

/-- A height above the weight of a type is enough for it. -/
theorem exists_typeExprWithin_of_complete (hr : r.Acyclic) {height : Nat} {id : TypeId}
    (hw : r.weight id < height) (hc : Complete r names id) :
    ∃ e, typeExprWithin literals r names height id = .ok e := by
  suffices h : ∃ e, typeExprWithin literals r names height id = .ok e ∧
      Expresses literals r names id e from h.imp fun _ ↦ And.left
  induction height generalizing id with
  | zero => exact absurd hw (Nat.not_lt_zero _)
  | succ height ih =>
    cases id with
    | scalar kind => exact ⟨_, by rw [typeExprWithin], .scalar kind⟩
    | node id =>
      obtain ⟨⟨d, hg⟩, hname⟩ := hc id id rfl .refl
      exact exists_typeExprWithin_node hg hname fun c hmem ↦
        ih (Nat.lt_of_lt_of_le (hr.weight_lt hg hmem) (Nat.lt_succ_iff.1 hw)) (hc.part hg hmem)

/-- **A type can be written out if everything that it leads to is there.** -/
theorem exists_typeExpr_of_complete (hr : r.Acyclic) {id : TypeId} (hc : Complete r names id) :
    ∃ e, typeExpr literals r names id = .ok e :=
  exists_typeExprWithin_of_complete hr (Nat.lt_succ_iff.2 (weight_le_size r id)) hc

end Writing

/-! ## Declarations -/

section Declarations

variable {options : EmitOptions} {s : Structure} {before taken : TakenNames} {rootName : String}
  {names : Names}

theorem exists_mapM_eq_ok {ε α β : Type} {f : α → Except ε β} {l : List α}
    (h : ∀ a ∈ l, ∃ b, f a = .ok b) : ∃ bs, l.mapM f = .ok bs := by
  induction l with
  | nil => exact ⟨[], rfl⟩
  | cons a l ih =>
    obtain ⟨b, hb⟩ := h a List.mem_cons_self
    obtain ⟨bs, hbs⟩ := ih fun c hc ↦ h c (List.mem_cons_of_mem _ hc)
    exact ⟨b :: bs, by rw [List.mapM_cons, hb, hbs]; rfl⟩

theorem exists_bind_pure_eq_ok {ε α β : Type} {x : Except ε α} (h : ∃ a, x = .ok a) (g : α → β) :
    ∃ b, (x >>= fun a ↦ pure (g a)) = .ok b := by
  obtain ⟨a, rfl⟩ := h
  exact ⟨g a, rfl⟩

/-- An object can be declared if its fields can be written out. -/
theorem exists_declare_eq_ok {entry : NodeId × String} (hobj : s.types.IsObject entry.1)
    (h : ∀ d, s.types.get? entry.1 = some d → ∀ c ∈ d.children,
      ∃ e, typeExpr options.literals s.types names c = .ok e) :
    ∃ ds, declare options s names entry = .ok ds := by
  obtain ⟨fields, hg⟩ := hobj
  have hfield : ∀ f ∈ fields, ∃ e, typeExpr options.literals s.types names f.2.type = .ok e :=
    fun f hf ↦ h _ hg _ (Descriptor.mem_children_object hf)
  have hrecord : ∃ d, recordOf options s.types names entry.2 fields = .ok d := by
    rw [recordOf]
    exact exists_bind_pure_eq_ok
      (exists_mapM_eq_ok fun f hf ↦ exists_bind_pure_eq_ok (hfield f hf) _) _
  have htuple : ∃ d, tupleOf options s.types names entry.2 fields = .ok d := by
    rw [tupleOf]
    exact exists_bind_pure_eq_ok
      (exists_mapM_eq_ok fun f hf ↦ hfield f (Ordered.mem_of_mem_ofList hf)) _
  rw [declare, hg]
  dsimp only
  split
  · exact exists_bind_pure_eq_ok htuple _
  · exact exists_bind_pure_eq_ok hrecord _

/-- **All declarations can be made once all objects have names.** -/
theorem exists_declarationsOf_of_assignRoot (hr : s.types.Acyclic) (hname : isIdentifier rootName)
    (h : assignRoot s before rootName = (.ok names, taken)) :
    ∃ added, declarationsOf options s rootName names = .ok added := by
  have hcomplete := Structure.complete_of_assignRoot hname h
  obtain ⟨root, hroot⟩ : ∃ root, declareRoot options s rootName names = .ok root := by
    rw [declareRoot]
    split
    · exact ⟨_, rfl⟩
    · obtain ⟨e, he⟩ : ∃ e, typeExpr options.literals s.types names s.root = .ok e :=
        exists_typeExpr_of_complete hr hcomplete
      exact ⟨_, by rw [he]; rfl⟩
  obtain ⟨dss, hdss⟩ : ∃ dss, names.mapM (declare options s names) = .ok dss :=
    exists_mapM_eq_ok fun entry hentry ↦ by
      obtain ⟨hobj, top, htop, hleads⟩ := Structure.entry_of_assignRoot hname h hentry
      have hentry : Complete s.types names (.node entry.1) := by
        rintro a b he hab
        cases he
        exact hcomplete top b htop (hleads.trans hab)
      exact exists_declare_eq_ok hobj fun d hd c hc ↦
        exists_typeExpr_of_complete hr (hentry.part hd hc)
  exact ⟨_, by rw [declarationsOf, hroot, hdss]; rfl⟩

end Declarations

/-- **Without cycles a structure is declared, or something is lacking**, and then no more than names
have been taken. -/
theorem Emitter.emit_of_acyclic (e : Emitter) {s : Structure} {name : String}
    (hr : s.types.Acyclic) (hname : isIdentifier name) :
    (∃ id taken, s.Lacks id ∧ e.emit s name = (.error (.missingType id), { e with taken })) ∨
      (∀ id, ¬ s.Lacks id) ∧ ∃ taken added,
        e.emit s name = (.ok (), { e with taken, declarations := e.declarations ++ added }) := by
  have hident := isIdentifier_freshName e.taken hname
  rw [emit_of_isIdentifier e s hname]
  rcases hassign : assignRoot s e.taken (freshName e.taken name) with ⟨error | names, taken⟩
  · obtain ⟨id, hid, rfl⟩ := Structure.missing_of_assignRoot hassign
    exact .inl ⟨id, taken, hid, rfl⟩
  · obtain ⟨added, hadded⟩ : ∃ added, declarationsOf e.options s _ names = .ok added :=
      exists_declarationsOf_of_assignRoot hr hident hassign
    exact .inr ⟨(Structure.exists_assignRoot_iff hident).1 ⟨names, taken, hassign⟩, taken, added,
      declareNamed_of_ok (e := { e with taken }) hadded⟩

/-! ## A row and a loose list -/

/-- An object with one field, and a list beside it whose items are not registered. -/
def looseRow (type : TypeId) : Structure :=
  ⟨.node ⟨1⟩, .ofList [(⟨1⟩, .object (.ofList [("row", ⟨.required, type⟩)])),
    (⟨2⟩, .array (.node ⟨3⟩))], []⟩

section LooseRow

variable {type : TypeId}

theorem get?_looseRow (type : TypeId) (id : NodeId) :
    (looseRow type).types.get? id =
      if id = ⟨1⟩ then some (.object (.ofList [("row", ⟨.required, type⟩)]))
      else if id = ⟨2⟩ then some (.array (.node ⟨3⟩)) else none := by
  rw [get?_eq_lookup, looseRow, Table.toList_ofList]
  by_cases h₁ : id = ⟨1⟩
  · subst h₁
    rfl
  · by_cases h₂ : id = ⟨2⟩
    · subst h₂
      rfl
    · rw [if_neg h₁, if_neg h₂, List.lookup_cons, beq_false_of_ne h₁, List.lookup_cons,
        beq_false_of_ne h₂, List.lookup_nil]

theorem points_looseRow {a b : NodeId} (hab : (looseRow type).types.Points a b) :
    a = ⟨1⟩ ∧ type = .node b ∨ a = ⟨2⟩ ∧ b = ⟨3⟩ := by
  obtain ⟨d, hd, hb⟩ := hab
  rw [get?_looseRow] at hd
  split at hd
  · next ha =>
    cases hd
    exact .inl ⟨ha, (List.mem_singleton.1 hb).symm⟩
  · split at hd
    · next ha =>
      cases hd
      exact .inr ⟨ha, TypeId.node.inj (List.mem_singleton.1 hb)⟩
    · cases hd

/-- All that is referred to is the type that is not registered, so there are no cycles. -/
theorem acyclic_looseRow (h : ∀ n, type = .node n → n = ⟨3⟩) : (looseRow type).types.Acyclic := by
  refine acyclic_of_rank (fun id ↦ if id = ⟨3⟩ then 0 else 1) fun a b hab ↦ ?_
  obtain ⟨rfl, hb⟩ | ⟨rfl, rfl⟩ := points_looseRow hab
  · obtain rfl := h b hb
    decide
  · decide

theorem not_lacks_looseRow (kind : Scalar) (id : NodeId) :
    ¬ (looseRow (.scalar kind)).Lacks id := by
  rintro ⟨⟨root, hroot, hleads⟩, hmissing⟩
  cases hroot
  obtain rfl | ⟨b, hb, -⟩ := hleads.cases_head
  · rw [get?_looseRow] at hmissing
    cases hmissing
  · obtain ⟨-, h⟩ | ⟨h, -⟩ := points_looseRow hb
    · cases h
    · cases h

theorem lacks_looseRow_iff {id : NodeId} : (looseRow (.node ⟨3⟩)).Lacks id ↔ id = ⟨3⟩ := by
  have hmissing : (looseRow (.node ⟨3⟩)).types.get? ⟨3⟩ = none := by
    rw [get?_looseRow]
    rfl
  constructor
  · rintro ⟨⟨root, hroot, hleads⟩, hid⟩
    cases hroot
    obtain rfl | ⟨b, -, hab⟩ := hleads.cases_tail
    · rw [get?_looseRow] at hid
      cases hid
    · obtain ⟨-, h⟩ | ⟨-, h⟩ := points_looseRow hab
      · exact (TypeId.node.inj h).symm
      · exact h
  · rintro rfl
    have hpoints : (looseRow (.node ⟨3⟩)).types.Points ⟨1⟩ ⟨3⟩ := by
      refine ⟨_, get?_looseRow _ _, ?_⟩
      exact List.mem_singleton_self _
    exact ⟨⟨⟨1⟩, rfl, .single hpoints⟩, hmissing⟩

end LooseRow

end Silhouette
