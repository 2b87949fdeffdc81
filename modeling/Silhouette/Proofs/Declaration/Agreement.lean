import Silhouette.Proofs.Declaration.Missing

/-!
# Registries that say the same

Two registries agree from an id on if they say the same of every node to which it leads
(`Registry.AgreesFrom`); that includes nodes of which neither knows anything.  An emitter looks at
nothing else:

* the walk that names objects takes the same course, be it to an end or to a node that is missing
  (`assignNames_congr`);
* a type is written the same, with any two bounds on its height that are enough for it
  (`typeExprWithin_congr`).

The bounds have to be spoken of because an expression is written with one that depends on how much
is registered, and the two registries may differ there.
-/

set_option autoImplicit false

namespace Silhouette

open Registry

/-- Another registry says the same of everything that an id leads to. -/
def Registry.AgreesFrom (r r' : Registry) (id : TypeId) : Prop :=
  ∀ a b, id = .node a → r.Leads a b → r'.get? b = r.get? b

variable {r r' : Registry}

theorem Registry.AgreesFrom.get?_eq {id : NodeId} (h : r.AgreesFrom r' (.node id)) :
    r'.get? id = r.get? id :=
  h id id rfl .refl

theorem Registry.AgreesFrom.part {id : NodeId} (h : r.AgreesFrom r' (.node id)) {d : Descriptor}
    (hg : r.get? id = some d) {c : TypeId} (hc : c ∈ d.children) : r.AgreesFrom r' c := by
  rintro a b rfl hab
  exact h id b rfl (.head ⟨d, hg, hc⟩ hab)

theorem Registry.AgreesFrom.isObject_iff {id : NodeId} (h : r.AgreesFrom r' (.node id)) :
    r'.IsObject id ↔ r.IsObject id := by
  rw [IsObject, IsObject, h.get?_eq]

/-! ## The walk -/

/-- Where registries agree from a node on, they agree from its parts on. -/
theorem Registry.AgreesFrom.next {queue : List Visit} {id : NodeId} {hint : String} {isName : Bool}
    {d : Descriptor} (hg : r.get? id = some d)
    (h : ∀ v ∈ ⟨.node id, hint, isName⟩ :: queue, r.AgreesFrom r' v.type) :
    ∀ v ∈ queue ++ Visit.next hint d, r.AgreesFrom r' v.type := by
  obtain ⟨hid, hqueue⟩ := List.forall_mem_cons.1 h
  refine List.forall_mem_append.2 ⟨hqueue, fun v hv ↦ ?_⟩
  have hpart : v.type ∈ d.children := Visit.map_type_next hint d ▸ List.mem_map_of_mem hv
  exact hid.part hg hpart

/-- **The walk takes the same course.** -/
theorem assignNames_congr {seen : List NodeId} {taken : TakenNames} {names : Names}
    {queue : List Visit} (h : ∀ v ∈ queue, r.AgreesFrom r' v.type) :
    assignNames freshName r' seen taken names queue =
      assignNames freshName r seen taken names queue := by
  induction seen, taken, names, queue using assignNames_induction freshName r with
  | nil => rw [assignNames_nil, assignNames_nil]
  | scalar seen taken names kind hint isName queue ih =>
    rw [assignNames_scalar, assignNames_scalar]
    exact ih fun v hv ↦ h v (List.mem_cons_of_mem _ hv)
  | again seen taken names id hint isName queue hs ih =>
    rw [assignNames_of_mem hs, assignNames_of_mem hs]
    exact ih fun v hv ↦ h v (List.mem_cons_of_mem _ hv)
  | missing seen taken names id hint isName queue hs hg =>
    have hg' := (h _ List.mem_cons_self).get?_eq.trans hg
    rw [assignNames_of_none hs hg, assignNames_of_none hs hg']
  | given seen taken names id hint queue fields hs hg ih =>
    have hg' := (h _ List.mem_cons_self).get?_eq.trans hg
    rw [assignNames_of_object hs hg, assignNames_of_object hs hg', if_pos rfl, if_pos rfl]
    exact ih (.next hg h)
  | object seen taken names id hint queue fields hs hg ih =>
    have hg' := (h _ List.mem_cons_self).get?_eq.trans hg
    rw [assignNames_of_object hs hg, assignNames_of_object hs hg',
      if_neg Bool.false_ne_true, if_neg Bool.false_ne_true]
    exact ih (.next hg h)
  | other seen taken names id hint isName queue d hs hg hno ih =>
    have hhead := h _ List.mem_cons_self
    rw [assignNames_of_not_isObject hs hg hno, assignNames_of_not_isObject hs
      (hhead.get?_eq.trans hg) (mt hhead.isObject_iff.1 hno)]
    exact ih (.next hg h)

/-! ## Writing out -/

theorem mapM_congr {m : Type → Type} [Monad m] [LawfulMonad m] {α β : Type} {f g : α → m β}
    {l : List α} (h : ∀ a ∈ l, f a = g a) : l.mapM f = l.mapM g := by
  induction l with
  | nil => rfl
  | cons a l ih =>
    obtain ⟨ha, hl⟩ := List.forall_mem_cons.1 h
    rw [List.mapM_cons, List.mapM_cons, ha, ih hl]

/-- **A type is written the same** with any two bounds above its weight. -/
theorem typeExprWithin_congr {literals : Literals} {names : Names} (hr : r.Acyclic)
    {height height' : Nat} {id : TypeId} (hw : r.weight id < height) (hw' : r.weight id < height')
    (h : r.AgreesFrom r' id) :
    typeExprWithin literals r' names height' id = typeExprWithin literals r names height id := by
  induction height generalizing height' id with
  | zero => exact absurd hw (Nat.not_lt_zero _)
  | succ height ih =>
    obtain ⟨height', rfl⟩ := Nat.exists_eq_add_one_of_ne_zero (Nat.ne_zero_of_lt hw')
    cases id with
    | scalar kind => rw [typeExprWithin, typeExprWithin]
    | node id =>
      rw [typeExprWithin, typeExprWithin, h.get?_eq]
      cases hg : r.get? id with
      | none => rfl
      | some d =>
        have hpart : ∀ c ∈ d.children, typeExprWithin literals r' names height' c =
            typeExprWithin literals r names height c := fun c hc ↦ by
          have hlt := hr.weight_lt hg hc
          exact ih (by omega) (by omega) (h.part hg hc)
        cases d with
        | object fields => rfl
        | array item =>
          dsimp only
          rw [hpart item List.mem_cons_self]
        | union members =>
          have harms :
              (writtenOrder members.toList).mapM (typeExprWithin literals r' names height') =
                (writtenOrder members.toList).mapM (typeExprWithin literals r names height) :=
            mapM_congr fun c hc ↦ hpart c ((writtenOrder_perm _).mem_iff.1 hc)
          dsimp only
          rw [harms]

/-! ## Fields -/

section Fields

variable {options : EmitOptions} {names : Names} {fields : Fields}
  (h : ∀ f ∈ fields, typeExpr options.literals r' names f.2.type =
    typeExpr options.literals r names f.2.type)

include h

theorem recordOf_congr (name : String) :
    recordOf options r' names name fields = recordOf options r names name fields :=
  congrArg (· >>= _) <| mapM_congr fun f hf ↦ congrArg (· >>= _) (h f hf)

theorem tupleOf_congr (name : String) :
    tupleOf options r' names name fields = tupleOf options r names name fields :=
  congrArg (· >>= _) <| mapM_congr fun f hf ↦ h f (Ordered.mem_of_mem_ofList hf)

end Fields

end Silhouette
