import Silhouette.Proofs.Declaration.Denotes
import Silhouette.Proofs.Declaration.Naming
import Silhouette.Proofs.Declaration.ReadBack
import Silhouette.Proofs.Inference.FlatUnions

/-!
# Types as expressions

`Expresses` says how an id is written, level by level and without a bound on the height: an object
as its name, a list as a list, a union by its members in some order.  `typeExpr` answers such an
expression for every known id (`exists_typeExpr`), and all that is to be known about it follows from
there:

* it can be read back, because unions are flat (`Expresses.readable`);
* it stands for the tree that the id unfolds to (`Expresses.denotes`), as soon as the objects are
  declared (`DeclaresAll`).
-/

set_option autoImplicit false

namespace Silhouette

open Registry Text

theorem mapM_eq_ok {ε α β : Type} {f : α → Except ε β} {g : α → β} {l : List α}
    (h : ∀ a ∈ l, f a = .ok (g a)) : l.mapM f = .ok (l.map g) := by
  induction l with
  | nil => rfl
  | cons a l ih =>
    obtain ⟨ha, hl⟩ := List.forall_mem_cons.1 h
    rw [List.mapM_cons, ha, ih hl]
    rfl

theorem writtenOrder_perm (members : List TypeId) : (writtenOrder members).Perm members := by
  have hperm := List.filter_append_perm isTrailing members
  rw [writtenOrder]
  exact List.perm_append_comm.trans hperm

/-! ## How a type is written -/

/-- An id is written as an expression. -/
inductive Expresses (literals : Literals) (r : Registry) (names : Names) : TypeId → TypeExpr → Prop
  | scalar (kind : Scalar) :
      Expresses literals r names (.scalar kind) (.literal (literals.scalar kind))
  | object {id : NodeId} {fields : Fields} {name : String} (hg : r.get? id = some (.object fields))
      (hname : (id, name) ∈ names) : Expresses literals r names (.node id) (.name name)
  | array {id : NodeId} {item : TypeId} {e : TypeExpr} (hg : r.get? id = some (.array item))
      (h : Expresses literals r names item e) : Expresses literals r names (.node id) (.array e)
  | bottom {id : NodeId} {members : TypeSet} (hg : r.get? id = some (.union members))
      (hempty : members.toList = []) :
      Expresses literals r names (.node id) (.literal literals.bottom)
  | union {id : NodeId} {members : TypeSet} (expr : TypeId → TypeExpr)
      (hg : r.get? id = some (.union members)) (hne : members.toList ≠ [])
      (h : ∀ m ∈ members, Expresses literals r names m (expr m)) :
      Expresses literals r names (.node id) (.union ((writtenOrder members.toList).map expr))

section Expressions

variable {literals : Literals} {r : Registry} {names : Names} {id : TypeId} {e : TypeExpr}

/-- A type is written as soon as its parts are. -/
theorem exists_typeExprWithin_node {height : Nat} {id : NodeId} {d : Descriptor}
    (hg : r.get? id = some d) (hname : r.IsObject id → id ∈ names.map Prod.fst)
    (hpart : ∀ c ∈ d.children, ∃ e, typeExprWithin literals r names height c = .ok e ∧
      Expresses literals r names c e) :
    ∃ e, typeExprWithin literals r names (height + 1) (.node id) = .ok e ∧
      Expresses literals r names (.node id) e := by
  cases d with
  | object fields =>
    obtain ⟨⟨x, name⟩, hmem, hx⟩ := List.mem_map.1 (hname ⟨fields, hg⟩)
    cases hx
    obtain ⟨name', hlookup⟩ := exists_lookup_of_mem hmem
    refine ⟨.name name', ?_, .object hg (mem_of_lookup_eq_some hlookup)⟩
    rw [typeExprWithin, hg]
    dsimp only
    rw [hlookup]
  | array item =>
    obtain ⟨e, he, hexp⟩ := hpart item List.mem_cons_self
    refine ⟨.array e, ?_, .array hg hexp⟩
    rw [typeExprWithin, hg]
    dsimp only
    rw [he]
    rfl
  | union members =>
    by_cases hempty : members.toList = []
    · refine ⟨.literal literals.bottom, ?_, .bottom hg hempty⟩
      have hisEmpty : members.isEmpty := List.isEmpty_iff.2 hempty
      rw [typeExprWithin, hg]
      dsimp only
      rw [if_pos hisEmpty]
    · choose! expr hexpr using hpart
      have harms : (writtenOrder members.toList).mapM (typeExprWithin literals r names height) =
          .ok ((writtenOrder members.toList).map expr) :=
        mapM_eq_ok fun m hm ↦ (hexpr m ((writtenOrder_perm _).mem_iff.1 hm)).1
      have hisEmpty : ¬ members.isEmpty := fun h ↦ hempty (List.isEmpty_iff.1 h)
      refine ⟨_, ?_, .union expr hg hempty fun m hm ↦ (hexpr m hm).2⟩
      rw [typeExprWithin, hg]
      dsimp only
      rw [if_neg hisEmpty, harms]
      rfl

/-- Every height that exceeds the place of an id is enough for it. -/
theorem exists_typeExprWithin (hr : r.WellFormed)
    (hnames : ∀ id, r.IsObject id → id ∈ names.map Prod.fst) {n : Nat} (h : r.Before n id) :
    ∃ e, typeExprWithin literals r names (n + 1) id = .ok e ∧ Expresses literals r names id e := by
  induction n generalizing id with
  | zero =>
    cases id with
    | scalar kind => exact ⟨_, by rw [typeExprWithin], .scalar kind⟩
    | node id =>
      obtain ⟨i, hi, -⟩ := h
      omega
  | succ n ih =>
    cases id with
    | scalar kind => exact ⟨_, by rw [typeExprWithin], .scalar kind⟩
    | node id =>
      obtain ⟨d, hg⟩ := h.knows
      exact exists_typeExprWithin_node hg (hnames id) fun c hc ↦
        ih (h.part hr (describe?_eq_some_iff.2 ⟨id, rfl, hg⟩) hc)

/-- **Every known type has an expression.** -/
theorem exists_typeExpr (hr : r.WellFormed) (hnames : ∀ id, r.IsObject id → id ∈ names.map Prod.fst)
    (h : r.Knows id) :
    ∃ e, typeExpr literals r names id = .ok e ∧ Expresses literals r names id e :=
  exists_typeExprWithin hr hnames h.before_size

/-- All known types are written by one function. -/
def Writes (literals : Literals) (r : Registry) (names : Names) (expr : TypeId → TypeExpr) : Prop :=
  ∀ id, r.Knows id →
    typeExpr literals r names id = .ok (expr id) ∧ Expresses literals r names id (expr id)

theorem exists_writes (literals : Literals) (hr : r.WellFormed)
    (hnames : ∀ id, r.IsObject id → id ∈ names.map Prod.fst) :
    ∃ expr, Writes literals r names expr := by
  have hexists : ∀ id, r.Knows id → ∃ e, typeExpr literals r names id = .ok e ∧
      Expresses literals r names id e := fun id ↦ exists_typeExpr hr hnames
  choose! expr hexpr using hexists
  exact ⟨expr, hexpr⟩

/-- Only a union is written as a union. -/
theorem Expresses.isUnion (h : Expresses literals r names id e) (he : e.IsUnion) :
    r.IsUnion id := by
  obtain ⟨arms, rfl⟩ := he
  cases h with
  | union expr hg => exact ⟨_, hg⟩

/-- **An expression can be read back**: no arm of a union is a union, and there are several. -/
theorem Expresses.readable (hflat : r.FlatUnions)
    (hliterals : ∀ l ∈ literals.all, isIdentifier l)
    (hnames : ∀ e ∈ names, isIdentifier e.2 ∧ e.2 ∉ literals.all)
    (h : Expresses literals r names id e) : e.Readable literals.all := by
  induction h with
  | scalar kind =>
    have hmem := literals.scalar_mem_all kind
    exact .literal hmem (hliterals _ hmem)
  | object hg hname =>
    obtain ⟨hident, hmem⟩ := hnames _ hname
    exact .name hmem hident
  | array hg _ ih => exact .array ih
  | bottom hg _ =>
    have hmem := literals.bottom_mem_all
    exact .literal hmem (hliterals _ hmem)
  | @union id members expr hg hne h ih =>
    obtain ⟨hsize, hmembers⟩ := hflat id members hg
    have harm : ∀ {e}, e ∈ (writtenOrder members.toList).map expr → ∃ m ∈ members, expr m = e := by
      intro e he
      obtain ⟨m, hm, rfl⟩ := List.mem_map.1 he
      exact ⟨m, (writtenOrder_perm _).mem_iff.1 hm, rfl⟩
    refine .union (fun e he ↦ ?_) (fun e he hu ↦ ?_) ?_
    · obtain ⟨m, hm, rfl⟩ := harm he
      exact ih m hm
    · obtain ⟨m, hm, rfl⟩ := harm he
      exact hmembers m hm ((h m hm).isUnion hu)
    · rw [List.length_map, (writtenOrder_perm _).length_eq]
      exact hsize.resolve_left fun hzero ↦ hne (List.eq_nil_of_length_eq_zero hzero)

end Expressions

/-! ## What an expression stands for -/

/-- The properties of an object whose field types are written in a given way. -/
def propertiesOf (expr : TypeId → TypeExpr) (fields : Fields) : List Property :=
  fields.toList.map fun e ↦ ⟨e.1, e.2.isOptional, expr e.2.type⟩

/-- Every object is declared under its name, with its fields written as they are. -/
def DeclaresAll (literals : Literals) (r : Registry) (names : Names) (ds : List Declaration) :
    Prop :=
  ∀ (id : NodeId) (fields : Fields) (name : String), r.get? id = some (.object fields) →
    (id, name) ∈ names → ∃ asAlias expr, .record name asAlias (propertiesOf expr fields) ∈ ds ∧
      ∀ e ∈ fields, Expresses literals r names e.2.type (expr e.2.type)

section Meaning

variable {literals : Literals} {r : Registry} {names : Names} {ds : List Declaration}

theorem presence_property (f : Field) (key : String) (type : TypeExpr) :
    Property.presence ⟨key, f.isOptional, type⟩ = f.presence := by
  obtain ⟨p, c⟩ := f
  cases p <;> rfl

/-- The members of a union are those of its arms, in whatever order they are written. -/
theorem ofList_writtenOrder {tree : TypeId → TypeTree} {expr : TypeId → TypeExpr}
    {value : TypeExpr → TypeTree} {members : TypeSet}
    (h : ∀ m ∈ members, value (expr m) = tree m) :
    .ofList (((writtenOrder members.toList).map expr).map value) = members.image tree := by
  refine Ordered.ext_mem fun t ↦ ?_
  rw [Ordered.mem_ofList, Ordered.mem_image, List.map_map, List.mem_map]
  refine ⟨?_, ?_⟩
  · rintro ⟨m, hm, rfl⟩
    have hmem := (writtenOrder_perm _).mem_iff.1 hm
    exact ⟨m, hmem, (h m hmem).symm⟩
  · rintro ⟨m, hm, rfl⟩
    exact ⟨m, (writtenOrder_perm _).mem_iff.2 hm, h m hm⟩

theorem ofList_propertiesOf {tree : TypeId → TypeTree} {expr : TypeId → TypeExpr}
    {value : TypeExpr → TypeTree} {fields : Fields}
    (h : ∀ e ∈ fields, value (expr e.2.type) = tree e.2.type) :
    .ofList ((propertiesOf expr fields).map (Property.entry value)) = fields.toTrees tree := by
  have hentries : (propertiesOf expr fields).map (Property.entry value) =
      (fields.toTrees tree).toList := by
    rw [propertiesOf, List.map_map, Fields.toTrees, Ordered.toList_relabel]
    refine List.map_congr_left fun e he ↦ ?_
    rw [Function.comp_apply, Property.entry, presence_property, h e he]
    rfl
  rw [hentries, Ordered.ofList_toList]

/-- **An expression stands for the tree that its id unfolds to.** -/
theorem Expresses.denotes (hliterals : literals.all.Nodup)
    (hds : (ds.map Declaration.name).Nodup) (hall : DeclaresAll literals r names ds)
    {id : TypeId} {t : TypeTree} (hu : r.Unfolds id t) {e : TypeExpr}
    (he : Expresses literals r names id e) : Denotes literals ds e t := by
  induction hu generalizing e with
  | scalar kind =>
    cases he
    exact .scalar kind
  | @node id d tree hg _ ih =>
    have hmeaning : ∀ {e : TypeExpr} {c : TypeId}, c ∈ d.children →
        Expresses literals r names c e → meaning literals ds e = tree c := fun hc hexp ↦
      (ih _ hc hexp).meaning_eq hliterals hds
    cases he with
    | @object _ fields name hg' hname =>
      obtain rfl := Option.some.inj (hg.symm.trans hg')
      obtain ⟨asAlias, expr, hd, hexpr⟩ := hall id fields name hg hname
      have hfield : ∀ e ∈ fields, meaning literals ds (expr e.2.type) = tree e.2.type :=
        fun e he ↦ hmeaning (Descriptor.mem_children_object he) (hexpr e he)
      rw [Descriptor.toTree, ← ofList_propertiesOf hfield]
      refine .record _ hd fun p hp ↦ ?_
      obtain ⟨e, he, rfl⟩ := List.mem_map.1 hp
      rw [hfield e he]
      exact ih _ (Descriptor.mem_children_object he) (hexpr e he)
    | @array _ item e hg' h =>
      obtain rfl := Option.some.inj (hg.symm.trans hg')
      exact .array (ih item List.mem_cons_self h)
    | @bottom _ members hg' hempty =>
      obtain rfl := Option.some.inj (hg.symm.trans hg')
      have hbottom : members.image tree = ∅ := by rw [Ordered.image, hempty]; rfl
      rw [Descriptor.toTree, hbottom]
      exact .bottom
    | @union _ members expr hg' _ h =>
      obtain rfl := Option.some.inj (hg.symm.trans hg')
      have hmember : ∀ m ∈ members, meaning literals ds (expr m) = tree m :=
        fun m hm ↦ hmeaning hm (h m hm)
      rw [Descriptor.toTree, ← ofList_writtenOrder hmember]
      refine .union _ fun e he ↦ ?_
      obtain ⟨m, hm, rfl⟩ := List.mem_map.1 he
      have hmem := (writtenOrder_perm _).mem_iff.1 hm
      rw [hmember m hmem]
      exact ih m hmem (h m hmem)

end Meaning

end Silhouette
