import Mathlib.Order.Lattice
import Silhouette.Proofs.Declaration.Adds
import Silhouette.Proofs.Declaration.SyntaxReader

/-!
# What types mean, whatever their constructors mean

A type that is read is a term: names, lists, object types and unions.  Two terms say the same if
they have one value wherever unions are taken for joins, so that the order of arms, their grouping
and their number do not count, and nothing else is known of the constructors.  An `Interpretation`
is such a choice of values.

* `TypeSyntax.value` is the value of a type in which no name is declared, like that of a literal.
* `Means I ds t a` says that `t` has the value `a` where `ds` is declared: a name that is declared
  stands for its declaration, and any other is a name from outside.  A type has one value at most
  (`Means.unique`).
* `TypeTree.value` is the value of a type tree, given those of the scalars and of the type without
  values.

Where no literal is a union and no name is declared that occurs in a literal, an expression whose
literals are put in as text has the value of the tree that it was made of (`Expresses.means`).
-/

set_option autoImplicit false

namespace Silhouette

open Registry Text

/-- What the names and the constructors of types stand for, where unions are joins. -/
structure Interpretation (A : Type) where
  reference : String → List A → A
  list : A → A
  object : List (String × Presence × A) → A

variable {A : Type} [SemilatticeSup A] (I : Interpretation A)

/-! ## Values -/

namespace TypeSyntax

mutual

/-- The value of a type in which no name is declared. -/
def value : TypeSyntax → A
  | .reference n args => I.reference n (values args)
  | .list t => I.list (value t)
  | .union t u => value t ⊔ value u

def values : List TypeSyntax → List A
  | [] => []
  | t :: ts => value t :: values ts

end

theorem values_eq_map (ts : List TypeSyntax) : values I ts = ts.map (value I) := by
  induction ts with
  | nil => rw [values, List.map_nil]
  | cons t ts ih => rw [values, List.map_cons, ih]

end TypeSyntax

/-- The join of some values, and another value if there are none. -/
def joinOr (none : A) : List A → A
  | [] => none
  | a :: as => as.foldl (· ⊔ ·) a

theorem joinOr_le_iff {none x : A} {as : List A} (hne : as ≠ []) :
    joinOr none as ≤ x ↔ ∀ a ∈ as, a ≤ x := by
  obtain ⟨a, as, rfl⟩ := List.exists_cons_of_ne_nil hne
  rw [joinOr, List.forall_mem_cons]
  clear hne
  induction as generalizing a with
  | nil => simp
  | cons b as ih => rw [List.foldl_cons, ih, sup_le_iff, List.forall_mem_cons, and_assoc]

namespace TypeTree

variable (scalar : Scalar → A) (bottom : A)

mutual

/-- The value of a type tree, given those of the types that are written as literals. -/
def value : TypeTree → A
  | .scalar kind => scalar kind
  | .object fields => I.object (fieldValues fields)
  | .array t => I.list (value t)
  | .union members => joinOr bottom (memberValues members)

def fieldValues : List (String × Presence × TypeTree) → List (String × Presence × A)
  | [] => []
  | (key, presence, t) :: fields => (key, presence, value t) :: fieldValues fields

def memberValues : List TypeTree → List A
  | [] => []
  | t :: members => value t :: memberValues members

end

theorem fieldValues_eq_map (fields : List (String × Presence × TypeTree)) :
    fieldValues I scalar bottom fields =
      fields.map fun f ↦ (f.1, f.2.1, f.2.2.value I scalar bottom) := by
  induction fields with
  | nil => rw [fieldValues, List.map_nil]
  | cons f fields ih => rw [fieldValues, List.map_cons, ih]

theorem memberValues_eq_map (members : List TypeTree) :
    memberValues I scalar bottom members = members.map (value I scalar bottom) := by
  induction members with
  | nil => rw [memberValues, List.map_nil]
  | cons t members ih => rw [memberValues, List.map_cons, ih]

end TypeTree

/-! ## Meaning, where something is declared -/

/-- What the mark of a member says. -/
def Member.presence (m : Member) : Presence := if m.optional then .optional else .required

/-- A member with the value of its type. -/
def Member.entry (value : TypeSyntax → A) (m : Member) : String × Presence × A :=
  (m.key, m.presence, value m.type)

/-- A type has a value where something is declared. -/
inductive Means (ds : List DeclarationSyntax) : TypeSyntax → A → Prop
  /-- A name from outside. -/
  | free {n : String} {args : List TypeSyntax} (value : TypeSyntax → A)
      (hn : ∀ d ∈ ds, d.name ≠ n) (h : ∀ t ∈ args, Means ds t (value t)) :
      Means ds (.reference n args) (I.reference n (args.map value))
  | synonym {n : String} {t : TypeSyntax} {a : A} (hd : .synonym n t ∈ ds) (h : Means ds t a) :
      Means ds (.reference n []) a
  | object {n : String} {ms : List Member} (value : TypeSyntax → A) (hd : .object n ms ∈ ds)
      (h : ∀ m ∈ ms, Means ds m.type (value m.type)) :
      Means ds (.reference n []) (I.object (ms.map (Member.entry value)))
  | list {t : TypeSyntax} {a : A} (h : Means ds t a) : Means ds (.list t) (I.list a)
  | union {t u : TypeSyntax} {a b : A} (h : Means ds t a) (h' : Means ds u b) :
      Means ds (.union t u) (a ⊔ b)

section Meaning

variable {I} {ds : List DeclarationSyntax} {t : TypeSyntax} {a b : A}

theorem eq_of_declared_name_eq (hds : (ds.map DeclarationSyntax.name).Nodup)
    {d d' : DeclarationSyntax} (hd : d ∈ ds) (hd' : d' ∈ ds) (h : d.name = d'.name) : d = d' :=
  List.inj_on_of_nodup_map hds hd hd' h

/-- **A type has one value at most.** -/
theorem Means.unique (hds : (ds.map DeclarationSyntax.name).Nodup) (ht : Means I ds t a)
    (hu : Means I ds t b) : a = b := by
  induction ht generalizing b with
  | free value hn _ ih =>
    cases hu with
    | free value' _ h =>
      have hvalue : ∀ t ∈ _, value t = value' t := fun t ht ↦ ih t ht (h t ht)
      rw [List.map_congr_left hvalue]
    | synonym hd _ => exact absurd rfl (hn _ hd)
    | object _ hd _ => exact absurd rfl (hn _ hd)
  | synonym hd _ ih =>
    cases hu with
    | free _ hn _ => exact absurd rfl (hn _ hd)
    | synonym hd' h =>
      cases eq_of_declared_name_eq hds hd hd' rfl
      exact ih h
    | object _ hd' _ => cases eq_of_declared_name_eq hds hd hd' rfl
  | object value hd _ ih =>
    cases hu with
    | free _ hn _ => exact absurd rfl (hn _ hd)
    | synonym hd' _ => cases eq_of_declared_name_eq hds hd hd' rfl
    | object value' hd' h =>
      cases eq_of_declared_name_eq hds hd hd' rfl
      have hentry : ∀ m ∈ _, Member.entry value m = Member.entry value' m := fun m hm ↦ by
        rw [Member.entry, Member.entry, ih m hm (h m hm)]
      rw [List.map_congr_left hentry]
  | list _ ih =>
    cases hu with
    | list h => rw [ih h]
  | union _ _ ih ih' =>
    cases hu with
    | union h h' => rw [ih h, ih' h']

end Meaning

/-- The value of a type where something is declared. -/
noncomputable def TypeSyntax.meaning (ds : List DeclarationSyntax) (t : TypeSyntax) : A :=
  @Classical.epsilon A ⟨I.reference "" []⟩ (Means I ds t)

section Meaning

variable {I} {ds : List DeclarationSyntax} {t : TypeSyntax} {a b : A}

theorem Means.meaning_eq (h : Means I ds t a) (hds : (ds.map DeclarationSyntax.name).Nodup) :
    t.meaning I ds = a :=
  (@Classical.epsilon_spec A (Means I ds t) ⟨a, h⟩).unique hds h

/-! ## Arms -/

/-- More arms mean a join. -/
theorem Means.append {as bs : Arms} (h : Means I ds as.type a) (h' : Means I ds bs.type b) :
    Means I ds (as.append bs).type (a ⊔ b) := by
  obtain ⟨before, last⟩ := as
  induction before generalizing a with
  | nil => exact .union h h'
  | cons t before ih =>
    cases h with
    | @union _ _ x y hx hy =>
      rw [sup_assoc]
      exact .union hx (ih hy)

theorem Arms.value_append (I : Interpretation A) (as bs : Arms) :
    (as.append bs).type.value I = as.type.value I ⊔ bs.type.value I := by
  obtain ⟨before, last⟩ := as
  induction before with
  | nil => rfl
  | cons t before ih =>
    have happend : ((Arms.mk (t :: before) last).append bs).type.value I =
        t.value I ⊔ ((Arms.mk before last).append bs).type.value I := rfl
    rw [happend, ih, ← sup_assoc]
    rfl

/-! ## Literals -/

/-- All types that are spelled in a phrase are of a kind. -/
def Phrase.All (P : TypeSyntax → Prop) : Phrase → Prop
  | .arm t => P t
  | .arms a => P a.type
  | .arguments ts => ∀ t ∈ ts, P t

/-- **A phrase keeps its value where no name is declared that occurs in it.** -/
theorem Spells.means {ts : List TypeToken} {p : Phrase} (h : Spells ts p)
    (hfree : ∀ d ∈ ds, TypeToken.word d.name ∉ ts) : p.All fun t ↦ Means I ds t (t.value I) := by
  induction h with
  | @name n hn =>
    refine .free (TypeSyntax.value I) (fun d hd he ↦ hfree d hd ?_) fun t ht ↦
      absurd ht List.not_mem_nil
    rw [he]
    exact List.mem_singleton_self _
  | @apply n ts args hn _ ih =>
    have hargs := ih fun d hd hmem ↦ hfree d hd
      (List.mem_cons_of_mem _ (List.mem_cons_of_mem _ (List.mem_append_left _ hmem)))
    have hvalue := Means.free (TypeSyntax.value I) (n := n) (fun d hd he ↦ hfree d hd (by
      rw [he]
      exact List.mem_cons_self)) hargs
    rwa [← TypeSyntax.values_eq_map] at hvalue
  | parenthesis _ ih =>
    exact ih fun d hd hmem ↦ hfree d hd (List.mem_cons_of_mem _ (List.mem_append_left _ hmem))
  | list _ ih => exact .list (ih fun d hd hmem ↦ hfree d hd (List.mem_append_left _ hmem))
  | single _ ih => exact ih hfree
  | @bar ts ts' a b _ _ ih ih' =>
    have hleft := ih fun d hd hmem ↦ hfree d hd (List.mem_append_left _ hmem)
    have hright := ih' fun d hd hmem ↦
      hfree d hd (List.mem_append_right _ (List.mem_cons_of_mem _ hmem))
    rw [Phrase.All, Arms.value_append]
    exact Means.append hleft hright
  | argument _ ih => exact List.forall_mem_singleton.2 (ih hfree)
  | comma _ _ ih ih' =>
    exact List.forall_mem_append.2
      ⟨ih fun d hd hmem ↦ hfree d hd (List.mem_append_left _ hmem),
        ih' fun d hd hmem ↦ hfree d hd (List.mem_append_right _ (List.mem_cons_of_mem _ hmem))⟩

end Meaning

/-- What literals spell, none of them a union and no name in them declared. -/
structure Undisturbed (literals : Literals) (spell : String → Arms) (ds : List DeclarationSyntax) :
    Prop where
  spells : ∀ l ∈ literals.all, Spells (tokens l) (.arms (spell l))
  single : ∀ l ∈ literals.all, (spell l).before = []
  free : ∀ l ∈ literals.all, ∀ d ∈ ds, TypeToken.word d.name ∉ tokens l

/-- The value of a type tree in which scalars and the type without values are what their literals
spell. -/
def Literals.valueOf (literals : Literals) (spell : String → Arms) (t : TypeTree) : A :=
  t.value I (fun kind ↦ (spell (literals.scalar kind)).type.value I)
    ((spell literals.bottom).type.value I)

/-- The objects with names are declared, their members written as they should be. -/
def DeclaresObjects (literals : Literals) (r : Registry) (names : Names)
    (ds : List DeclarationSyntax) : Prop :=
  ∀ (id : NodeId) (fields : Fields) (name : String), r.get? id = some (.object fields) →
    (id, name) ∈ names → ∃ ms, .object name ms ∈ ds ∧
      List.Forall₂ (fun f m ↦ f.1 = m.key ∧ f.2.presence = m.presence ∧
        ∃ e a, Expresses literals r names f.2.type e ∧ e.SplicedAs a ∧ m.type = a.type)
        fields.toList ms

section Expressions

variable {I} {literals : Literals} {spell : String → Arms} {r : Registry} {names : Names}
  {ds : List DeclarationSyntax} {id : TypeId} {e : TypeExpr} {a : Arms}

theorem Undisturbed.spliced_eq (h : Undisturbed literals spell ds) {l : String}
    (hl : l ∈ literals.all) (ha : (TypeExpr.literal l).SplicedAs a) : a = spell l := by
  cases ha with
  | literal hspells => exact hspells.arms_unique (h.spells l hl)

theorem Undisturbed.means (h : Undisturbed literals spell ds) {l : String}
    (hl : l ∈ literals.all) (ha : (TypeExpr.literal l).SplicedAs a) :
    Means I ds a.type ((spell l).type.value I) := by
  rw [h.spliced_eq hl ha]
  exact (h.spells l hl).means (h.free l hl)

/-- What takes no parentheses is a single arm, with its literals put in. -/
theorem Expresses.before_eq_nil (hflat : r.FlatUnions) (h : Undisturbed literals spell ds)
    (he : Expresses literals r names id e) (hparens : e.needsParens = false)
    (ha : e.SplicedAs a) : a.before = [] := by
  induction he generalizing a with
  | scalar kind =>
    have hl := literals.scalar_mem_all kind
    rw [h.spliced_eq hl ha, h.single _ hl]
  | object =>
    cases ha
    rfl
  | array _ _ ih =>
    cases ha with
    | enclosed => rfl
    | @array _ b hitem hb => exact (ih hitem hb : b.before = [])
  | bottom =>
    rw [h.spliced_eq literals.bottom_mem_all ha, h.single _ literals.bottom_mem_all]
  | @union id members expr hg hne _ _ =>
    obtain ⟨hsize, -⟩ := hflat id members hg
    have htwo : 1 < ((writtenOrder members.toList).map expr).length := by
      rw [List.length_map, (writtenOrder_perm _).length_eq]
      exact hsize.resolve_left fun hzero ↦ hne (List.eq_nil_of_length_eq_zero hzero)
    rw [TypeExpr.needsParens, decide_eq_true htwo] at hparens
    cases hparens

/-- The arms of a union have the values of its members, joined. -/
theorem means_union {members : List TypeId} {expr : TypeId → TypeExpr} {v : TypeId → A}
    (ha : (TypeExpr.union (members.map expr)).SplicedAs a)
    (h : ∀ m ∈ members, ∀ b, (expr m).SplicedAs b → Means I ds b.type (v m)) :
    ∃ x, Means I ds a.type x ∧ ∀ y, x ≤ y ↔ ∀ m ∈ members, v m ≤ y := by
  induction members generalizing a with
  | nil => cases ha
  | cons m members ih =>
    obtain ⟨hm, hmembers⟩ := List.forall_mem_cons.1 h
    generalize hes : (m :: members).map expr = es at ha
    cases ha with
    | only ha =>
      obtain ⟨rfl, hnil⟩ := List.cons.inj hes
      obtain rfl := List.map_eq_nil_iff.1 hnil
      exact ⟨v m, hm a ha, fun y ↦ by simp⟩
    | @union _ _ b c hb hc =>
      obtain ⟨rfl, rfl⟩ := List.cons.inj hes
      obtain ⟨x, hx, hle⟩ := ih hc hmembers
      exact ⟨v m ⊔ x, (hm b hb).append hx, fun y ↦ by
        rw [sup_le_iff, hle, List.forall_mem_cons]⟩

theorem valueOf_object {fields : Fields} {tree : TypeId → TypeTree} {ms : List Member}
    {value : TypeSyntax → A}
    (h : List.Forall₂ (fun f m ↦ f.1 = m.key ∧ f.2.presence = m.presence ∧
      value m.type = literals.valueOf I spell (tree f.2.type)) fields.toList ms) :
    I.object (ms.map (Member.entry value)) =
      literals.valueOf I spell ((Descriptor.object fields).toTree tree) := by
  rw [Literals.valueOf, Descriptor.toTree, TypeTree.ofFields, TypeTree.value,
    TypeTree.fieldValues_eq_map, Fields.toTrees, Ordered.toList_relabel, List.map_map]
  refine congrArg _ (List.forall₂_eq_eq_eq ▸ ?_)
  refine List.forall₂_map_left_iff.2 (List.forall₂_map_right_iff.2 (h.flip.imp ?_))
  rintro m f ⟨hkey, hpresence, hvalue⟩
  rw [Member.entry, hvalue, ← hkey, ← hpresence]
  rfl

theorem valueOf_union_eq {members : TypeSet} {tree : TypeId → TypeTree} {x : A}
    (hne : members.toList ≠ [])
    (hle : ∀ y, x ≤ y ↔ ∀ m ∈ members, literals.valueOf I spell (tree m) ≤ y) :
    x = literals.valueOf I spell ((Descriptor.union members).toTree tree) := by
  obtain ⟨m, hm⟩ := List.exists_mem_of_ne_nil _ hne
  have hmem : tree m ∈ members.image tree := Ordered.mem_image.2 ⟨m, hm, rfl⟩
  refine eq_of_forall_ge_iff fun y ↦ ?_
  rw [hle, Literals.valueOf, Descriptor.toTree, TypeTree.ofMembers, TypeTree.value,
    TypeTree.memberValues_eq_map, joinOr_le_iff (List.ne_nil_of_mem (List.mem_map_of_mem hmem)),
    List.forall_mem_map]
  refine ⟨fun h t ht ↦ ?_, fun h m hm ↦ h _ (Ordered.mem_image.2 ⟨m, hm, rfl⟩)⟩
  obtain ⟨m, hm, rfl⟩ := Ordered.mem_image.1 ht
  exact h m hm

/-- **An expression has the value of the tree that it was made of**, also with literals put in. -/
theorem Expresses.means (hflat : r.FlatUnions) (h : Undisturbed literals spell ds)
    (hds : (ds.map DeclarationSyntax.name).Nodup) (hall : DeclaresObjects literals r names ds)
    {t : TypeTree} (hu : r.Unfolds id t) (he : Expresses literals r names id e)
    (ha : e.SplicedAs a) : Means I ds a.type (literals.valueOf I spell t) := by
  induction hu generalizing e a with
  | scalar kind =>
    cases he
    exact h.means (literals.scalar_mem_all kind) ha
  | @node id d tree hg _ ih =>
    cases he with
    | @object _ fields name hg' hname =>
      obtain rfl := Option.some.inj (hg.symm.trans hg')
      cases ha
      obtain ⟨ms, hd, hms⟩ := hall id fields name hg hname
      have hvalue : List.Forall₂ (fun f m ↦ f.1 = m.key ∧ f.2.presence = m.presence ∧
          Means I ds m.type (literals.valueOf I spell (tree f.2.type))) fields.toList ms := by
        refine ((List.forall₂_and_left _ _).2 ⟨fun f hf ↦ hf, hms⟩).imp ?_
        rintro f m ⟨hf, hkey, hpresence, e, a, he, ha, htype⟩
        exact ⟨hkey, hpresence, htype ▸ ih _ (Descriptor.mem_children_object hf) he ha⟩
      have hobject := Means.object (TypeSyntax.meaning I ds) hd fun m hm ↦ by
        obtain ⟨f, -, -, -, hmeans⟩ := exists_mem_of_forall₂ hvalue m hm
        rwa [hmeans.meaning_eq hds]
      rwa [valueOf_object (hvalue.imp fun f m ⟨hkey, hpresence, hmeans⟩ ↦
        ⟨hkey, hpresence, hmeans.meaning_eq hds⟩)] at hobject
    | @array _ item e hg' he =>
      obtain rfl := Option.some.inj (hg.symm.trans hg')
      cases ha with
      | enclosed hparens ha => exact .list (ih item List.mem_cons_self he ha)
      | @array _ b hparens hb =>
        have hmeans := ih item List.mem_cons_self he hb
        have hbefore := he.before_eq_nil hflat h hparens hb
        obtain ⟨before, last⟩ := b
        obtain rfl : before = [] := hbefore
        exact .list hmeans
    | @bottom _ members hg' hempty =>
      obtain rfl := Option.some.inj (hg.symm.trans hg')
      have hbottom : members.image tree = ∅ := by rw [Ordered.image, hempty]; rfl
      rw [Descriptor.toTree, hbottom]
      exact h.means literals.bottom_mem_all ha
    | @union _ members expr hg' hne hexpr =>
      obtain rfl := Option.some.inj (hg.symm.trans hg')
      have hmem : ∀ m, m ∈ writtenOrder members.toList ↔ m ∈ members := fun m ↦
        (writtenOrder_perm _).mem_iff
      obtain ⟨x, hx, hle⟩ := means_union ha fun m hm b hb ↦
        ih m ((hmem m).1 hm) (hexpr m ((hmem m).1 hm)) hb
      rwa [valueOf_union_eq hne fun y ↦ (hle y).trans (forall_congr' fun m ↦ by rw [hmem])] at hx

end Expressions

end Silhouette
