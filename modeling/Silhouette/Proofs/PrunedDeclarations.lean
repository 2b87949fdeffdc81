import Mathlib
import Silhouette.Proofs.Declaration.Agreement

/-!
# Pruning does not show in declarations

Whether a structure is pruned before it is declared makes no difference: the same declarations are
added under the same names, and where there is an error, it is the same one
(`Emitter.emit_prune`).  The structure may hold what its root does not reach and refer to what is
not registered; it only must not have cycles.

Pruning keeps all that the root leads to, so the two registries agree from the root on
(`Structure.agreesFrom_prune`).  All declarations are of such nodes, since only those get names.
-/

set_option autoImplicit false

namespace Silhouette

open Registry Text

namespace Structure

variable {s : Structure}

/-- Pruning changes nothing about what the root leads to. -/
theorem agreesFrom_prune {id : TypeId} (h : ∀ n, id = .node n → n ∈ s.reachable) :
    s.types.AgreesFrom s.prune.types id := by
  rintro a b rfl hab
  obtain ⟨root, hroot, ha⟩ := mem_reachable_iff.1 (h a rfl)
  rw [get?_prune, if_pos (mem_reachable_iff.2 ⟨root, hroot, ha.trans hab⟩)]

theorem mem_reachable_root (n : NodeId) (h : s.root = .node n) : n ∈ s.reachable :=
  mem_reachable_iff.2 ⟨n, h, .refl⟩

theorem mem_reachable_part {id : NodeId} (hid : id ∈ s.reachable) {d : Descriptor}
    (hg : s.types.get? id = some d) {c : TypeId} (hc : c ∈ d.children) (n : NodeId)
    (h : c = .node n) : n ∈ s.reachable := by
  obtain ⟨root, hroot, hleads⟩ := mem_reachable_iff.1 hid
  exact mem_reachable_iff.2 ⟨root, hroot, hleads.tail ⟨d, hg, h ▸ hc⟩⟩

theorem hasObjectRoot_prune : s.prune.hasObjectRoot = s.hasObjectRoot := by
  have hdescribe : s.prune.types.describe? s.root = s.types.describe? s.root := by
    cases hroot : s.root with
    | scalar kind => rfl
    | node root => exact (agreesFrom_prune fun n hn ↦ mem_reachable_root n (hroot.trans hn)).get?_eq
  rw [hasObjectRoot, root_prune, hdescribe, hasObjectRoot]

theorem assignRoot_prune (before : TakenNames) (rootName : String) :
    assignRoot s.prune before rootName = assignRoot s before rootName := by
  rw [assignRoot, assignRoot, root_prune]
  refine assignNames_congr fun v hv ↦ ?_
  obtain rfl := List.mem_singleton.1 hv
  exact agreesFrom_prune mem_reachable_root

/-! ## Declarations -/

variable {options : EmitOptions} {names : Names}

theorem typeExpr_prune (hr : s.types.Acyclic) {literals : Literals} {id : TypeId}
    (h : ∀ n, id = .node n → n ∈ s.reachable) :
    typeExpr literals s.prune.types names id = typeExpr literals s.types names id :=
  typeExprWithin_congr hr (Nat.lt_succ_iff.2 (weight_le_size _ id))
    (Nat.lt_succ_iff.2 (weight_le_size_prune h)) (agreesFrom_prune h)

theorem declareRoot_prune (hr : s.types.Acyclic) (rootName : String) :
    declareRoot options s.prune rootName names = declareRoot options s rootName names := by
  rw [declareRoot, declareRoot, hasObjectRoot_prune, root_prune,
    typeExpr_prune hr mem_reachable_root]

theorem declare_prune (hr : s.types.Acyclic) {entry : NodeId × String}
    (hentry : entry.1 ∈ s.reachable) :
    declare options s.prune names entry = declare options s names entry := by
  have hget : s.prune.types.get? entry.1 = s.types.get? entry.1 := by
    rw [get?_prune, if_pos hentry]
  rw [declare, declare, hget]
  cases hg : s.types.get? entry.1 with
  | none => rfl
  | some d =>
    cases d with
    | object fields =>
      have hfield : ∀ f ∈ fields, typeExpr options.literals s.prune.types names f.2.type =
          typeExpr options.literals s.types names f.2.type := fun f hf ↦
        typeExpr_prune hr (mem_reachable_part hentry hg (Descriptor.mem_children_object hf))
      dsimp only
      rw [recordOf_congr hfield, tupleOf_congr hfield, root_prune]
    | array item => rfl
    | union members => rfl

end Structure

namespace Emitter

variable {s : Structure}

theorem declareEach_prune (hr : s.types.Acyclic) (e : Emitter) (names : Names) {entries : Names}
    (h : ∀ entry ∈ entries, entry.1 ∈ s.reachable) :
    e.declareEach s.prune names entries = e.declareEach s names entries := by
  induction entries generalizing e with
  | nil => rfl
  | cons entry entries ih =>
    obtain ⟨hentry, hentries⟩ := List.forall_mem_cons.1 h
    rw [declareEach, declareEach, Structure.declare_prune hr hentry]
    cases declare e.options s names entry with
    | error error => rfl
    | ok added => exact ih (e.push added) hentries

theorem declareNamed_prune (hr : s.types.Acyclic) (e : Emitter) (rootName : String) {names : Names}
    (h : ∀ entry ∈ names, entry.1 ∈ s.reachable) :
    e.declareNamed s.prune rootName names = e.declareNamed s rootName names := by
  rw [declareNamed, declareNamed, Structure.declareRoot_prune hr]
  cases declareRoot e.options s rootName names with
  | error error => rfl
  | ok added => exact declareEach_prune hr (e.push added) names h

/-- **Pruning does not show in declarations.**  A structure without cycles is declared in one and
the same way before and after it is pruned, by any emitter and under any name: the same declarations
are added and the same names are taken, and there is no error, or the same one. -/
theorem emit_prune (e : Emitter) (s : Structure) (name : String) (hr : s.types.Acyclic) :
    e.emit s.prune name = e.emit s name := by
  by_cases hname : isIdentifier name
  · rw [emit_of_isIdentifier e s.prune hname, emit_of_isIdentifier e s hname,
      Structure.assignRoot_prune]
    rcases hassign : assignRoot s e.taken (freshName e.taken name) with ⟨error | names, taken⟩
    · rfl
    · refine declareNamed_prune hr _ _ fun entry hentry ↦ ?_
      obtain ⟨-, hleads⟩ :=
        Structure.entry_of_assignRoot (isIdentifier_freshName e.taken hname) hassign hentry
      exact Structure.mem_reachable_iff.2 hleads
  · rw [emit_of_not_isIdentifier e s.prune hname, emit_of_not_isIdentifier e s hname]

/-- Pruning a row drops the list beside it.  The row is declared all the same, and if the type of
its field is missing, that is reported as before. -/
theorem emit_prune_looseRow :
    ((looseRow (.scalar .string)).types.size = 2 ∧
        (looseRow (.scalar .string)).prune.types.size = 1) ∧
      ((new {}).emit (looseRow (.scalar .string)).prune "Row").1 = .ok () ∧
      ((new {}).emit (looseRow (.node ⟨3⟩)).prune "Row").1 = .error (.missingType ⟨3⟩) := by
  have hscalar : (looseRow (.scalar .string)).types.Acyclic := acyclic_looseRow fun n h ↦ by cases h
  have hmissing : (looseRow (.node ⟨3⟩)).types.Acyclic :=
    acyclic_looseRow fun n h ↦ (TypeId.node.inj h).symm
  have hrow : isIdentifier "Row" := by decide
  refine ⟨⟨by cbv, by cbv⟩, ?_, ?_⟩
  · rw [emit_prune (new {}) _ "Row" hscalar]
    obtain ⟨id, -, hid, -⟩ | ⟨-, taken, added, hemit⟩ := (new {}).emit_of_acyclic hscalar hrow
    · exact absurd hid (not_lacks_looseRow .string id)
    · rw [hemit]
  · rw [emit_prune (new {}) _ "Row" hmissing]
    obtain ⟨id, taken, hid, hemit⟩ | ⟨hno, -⟩ := (new {}).emit_of_acyclic hmissing hrow
    · obtain rfl := lacks_looseRow_iff.1 hid
      rw [hemit]
    · exact absurd (lacks_looseRow_iff.2 rfl) (hno ⟨3⟩)

end Emitter

end Silhouette
