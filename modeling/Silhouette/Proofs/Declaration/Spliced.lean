import Silhouette.Proofs.Declaration.Interpretation

/-!
# Declarations with literals put in

If all literals are type expressions, there is something to be read in the place of every
declaration that a structure adds (`Adds.exists_splicedAs`), and objects are declared there as they
should be (`Adds.declaresObjects`).  If no literal is a union and no name in a literal is declared,
the name of the root has the value of its type (`Adds.means_root`).
-/

set_option autoImplicit false

namespace Silhouette

open Registry Text

/-! ## Related lists -/

section Lists

variable {α β γ : Type} {p : α → β → Prop} {q : β → γ → Prop} {r : α → γ → Prop}

theorem exists_forall₂ {as : List α} (h : ∀ a ∈ as, ∃ b, p a b) : ∃ bs, List.Forall₂ p as bs := by
  induction as with
  | nil => exact ⟨[], .nil⟩
  | cons a as ih =>
    obtain ⟨⟨b, hb⟩, has⟩ := List.forall_mem_cons.1 h
    obtain ⟨bs, hbs⟩ := ih has
    exact ⟨b :: bs, .cons hb hbs⟩

theorem forall₂_comp (hcomp : ∀ {a b c}, p a b → q b c → r a c) {as : List α} {bs : List β}
    {cs : List γ} (h : List.Forall₂ p as bs) (h' : List.Forall₂ q bs cs) :
    List.Forall₂ r as cs := by
  induction h generalizing cs with
  | nil =>
    cases h'
    exact .nil
  | cons hab _ ih =>
    cases h' with
    | cons hbc hrest => exact .cons (hcomp hab hbc) (ih hrest)

end Lists

/-! ## There is something to be read -/

theorem TypeExpr.exists_union_splicedAs {es : List TypeExpr} (hne : es ≠ [])
    (h : ∀ e ∈ es, ∃ a, e.SplicedAs a) : ∃ a, (TypeExpr.union es).SplicedAs a := by
  induction es with
  | nil => exact absurd rfl hne
  | cons e es ih =>
    obtain ⟨⟨a, ha⟩, hes⟩ := List.forall_mem_cons.1 h
    cases es with
    | nil => exact ⟨a, .only ha⟩
    | cons f es =>
      obtain ⟨b, hb⟩ := ih (List.cons_ne_nil f es) hes
      exact ⟨a.append b, .union ha hb⟩

section Spelled

variable {options : EmitOptions} {spell : String → Arms} {s : Structure} {rootName : String}
  {names : Names} {added : List Declaration}
  (hspell : ∀ l ∈ options.literals.all, Spells (tokens l) (.arms (spell l)))

include hspell

/-- **Literals can be put into whatever is written out.** -/
theorem Expresses.exists_splicedAs {r : Registry} {id : TypeId} {e : TypeExpr}
    (hnames : ∀ entry ∈ names, isIdentifier entry.2)
    (h : Expresses options.literals r names id e) : ∃ a, e.SplicedAs a := by
  induction h with
  | scalar kind => exact ⟨_, .literal (hspell _ (options.literals.scalar_mem_all kind))⟩
  | object _ hname => exact ⟨_, .name (hnames _ hname)⟩
  | @array _ _ e _ _ ih =>
    obtain ⟨a, ha⟩ := ih
    cases hparens : e.needsParens with
    | true => exact ⟨_, .enclosed hparens ha⟩
    | false => exact ⟨_, .array hparens ha⟩
  | bottom => exact ⟨_, .literal (hspell _ options.literals.bottom_mem_all)⟩
  | @union _ members expr _ hne _ ih =>
    have hperm := writtenOrder_perm members.toList
    refine TypeExpr.exists_union_splicedAs (fun hnil ↦ hne ?_) (List.forall_mem_map.2 fun m hm ↦ ?_)
    · rw [List.map_eq_nil_iff] at hnil
      rw [hnil] at hperm
      exact hperm.nil_eq.symm
    · exact ih m (hperm.mem_iff.1 hm)

theorem DeclaredAs.exists_splicedAs (htuple : options.rootAsTuple = false)
    (hnames : ∀ entry ∈ names, isIdentifier entry.2) {entry : NodeId × String}
    (hentry : entry ∈ names) {d : Declaration} (h : DeclaredAs options s names entry d) :
    ∃ d', d.SplicedAs d' := by
  cases h with
  | tuple _ hroot =>
    rw [htuple] at hroot
    exact absurd hroot.1 Bool.false_ne_true
  | record _ _ hps =>
    have hproperty : ∀ p ∈ _, ∃ m, Property.SplicedAs p m := fun p hp ↦ by
      obtain ⟨f, -, -, -, hexp⟩ := exists_mem_of_forall₂ hps p hp
      obtain ⟨a, ha⟩ := hexp.exists_splicedAs hspell hnames
      exact ⟨⟨p.key, p.optional, a.type⟩, rfl, rfl, a, ha, rfl⟩
    obtain ⟨ms, hms⟩ := exists_forall₂ hproperty
    exact ⟨_, .object (hnames entry hentry) hms⟩

/-- **Literals can be put into all that a structure adds.** -/
theorem Adds.exists_splicedAs (htuple : options.rootAsTuple = false)
    (h : Adds options s rootName names added) (hadded : ∀ d ∈ added, isIdentifier d.name) :
    ∀ d ∈ added, ∃ d', d.SplicedAs d' := by
  have hdeclared : ∀ name ∈ declaredNames s rootName names, isIdentifier name :=
    h.names_eq ▸ List.forall_mem_map.2 hadded
  have hnames : ∀ entry ∈ names, isIdentifier entry.2 := fun entry hentry ↦
    hdeclared _ (List.mem_append_right _ (List.mem_map_of_mem hentry))
  obtain ⟨root, objects, rfl, hroot, hobjects⟩ := h.declared
  refine List.forall_mem_append.2 ⟨?_, fun d hd ↦ ?_⟩
  · split at hroot
    · rw [hroot]
      exact fun d hd ↦ absurd hd List.not_mem_nil
    · obtain ⟨e, rfl, hexp⟩ := hroot
      obtain ⟨a, ha⟩ := hexp.exists_splicedAs hspell hnames
      exact List.forall_mem_singleton.2 ⟨_, .synonym (hadded _ List.mem_cons_self) ha⟩
  · obtain ⟨entry, hentry, hd⟩ := exists_mem_of_forall₂ hobjects d hd
    exact hd.exists_splicedAs hspell htuple hnames hentry

end Spelled

/-! ## What is read means what it should -/

theorem names_of_forall₂_splicedAs {ds : List Declaration} {ds' : List DeclarationSyntax}
    (h : List.Forall₂ Declaration.SplicedAs ds ds') :
    ds'.map DeclarationSyntax.name = ds.map Declaration.name := by
  induction h with
  | nil => rfl
  | cons hd _ ih => rw [List.map_cons, List.map_cons, hd.name_eq, ih]

section Meaning

variable {options : EmitOptions} {s : Structure} {rootName : String} {names : Names}
  {added all : List Declaration} {ds : List DeclarationSyntax}

theorem Member.presence_eq {m : Member} {f : Field} (h : m.optional = f.isOptional) :
    m.presence = f.presence := by
  rw [Member.presence, h, Field.isOptional]
  cases f.presence <;> rfl

/-- **Objects are declared as they should be**, also with literals put in. -/
theorem Adds.declaresObjects (h : Adds options s rootName names added)
    (htuple : options.rootAsTuple = false) (hadded : ∀ d ∈ added, d ∈ all)
    (hds : List.Forall₂ Declaration.SplicedAs all ds) :
    DeclaresObjects options.literals s.types names ds := by
  intro id fields name hg hname
  obtain ⟨root, objects, rfl, -, hobjects⟩ := h.declared
  obtain ⟨d, hd, hdeclared⟩ := exists_mem_of_forall₂ hobjects.flip _ hname
  obtain ⟨d', hd', hspliced⟩ :=
    exists_mem_of_forall₂ hds.flip d (hadded d (List.mem_append_right _ hd))
  cases hdeclared with
  | tuple _ hroot =>
    rw [htuple] at hroot
    exact absurd hroot.1 Bool.false_ne_true
  | record hg' _ hps =>
    cases hg.symm.trans hg'
    cases hspliced with
    | object _ hms =>
      refine ⟨_, hd', forall₂_comp ?_ hps hms⟩
      rintro f p m ⟨hkey, hoptional, hexp⟩ ⟨hkey', hoptional', a, ha, htype⟩
      exact ⟨hkey.symm.trans hkey', (Member.presence_eq (hoptional'.symm.trans hoptional)).symm,
        _, a, hexp, ha, htype⟩

/-- **The name of the root has the value of its type**, with literals put in. -/
theorem Adds.means_root {A : Type} [SemilatticeSup A] {I : Interpretation A}
    {spell : String → Arms} {t : TypeTree} (h : Adds options s rootName names added)
    (hname : isIdentifier rootName) (htuple : options.rootAsTuple = false)
    (hadded : ∀ d ∈ added, d ∈ all) (hds : List.Forall₂ Declaration.SplicedAs all ds)
    (hflat : s.types.FlatUnions) (hundisturbed : Undisturbed options.literals spell ds)
    (hnodup : (ds.map DeclarationSyntax.name).Nodup) (ht : s.types.Unfolds s.root t) :
    Means I ds (.reference rootName []) (options.literals.valueOf I spell t) := by
  have hall := h.declaresObjects htuple hadded hds
  by_cases hobj : s.hasObjectRoot
  · obtain ⟨root, hroot, hobject⟩ := hasObjectRoot_iff.1 hobj
    have hmem : (root, rootName) ∈ names :=
      List.mem_of_mem_head? (h.head_eq root hroot hobject)
    obtain ⟨fields, hg⟩ := hobject
    rw [hroot] at ht
    exact (Expresses.object hg hmem).means hflat hundisturbed hnodup hall ht (.name hname)
  · obtain ⟨root, objects, rfl, hroot, -⟩ := h.declared
    rw [if_neg hobj] at hroot
    obtain ⟨e, rfl, hexp⟩ := hroot
    obtain ⟨d', hd', hspliced⟩ := exists_mem_of_forall₂ hds.flip _ (hadded _ List.mem_cons_self)
    cases hspliced with
    | synonym _ ha => exact .synonym hd' (hexp.means hflat hundisturbed hnodup hall ht ha)

end Meaning

end Silhouette
