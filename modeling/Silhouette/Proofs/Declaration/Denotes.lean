import Silhouette.Declaration.Literals
import Silhouette.Declaration.TypeExpr
import Silhouette.Proofs.TypeTree.Basic

/-!
# What declarations say

`Denotes literals ds e t` says that the expression `e` stands for the type `t` when `ds` is what is
declared: literals stand for scalars and for the type without values, a name for what is declared
under it, a union for the set of what its arms stand for.  Declared types are unfolded in full, so
nothing is left of the names, of the order in which arms and fields are written and of the way in
which an object type is declared.

Where literals are told apart and no name is declared twice, an expression stands for one type at
most (`Denotes.unique`).  `meaning` is that type.
-/

set_option autoImplicit false

namespace Silhouette

/-! ## Literals -/

namespace Literals

variable {l : Literals}

theorem scalar_mem_all (l : Literals) (kind : Scalar) : l.scalar kind ∈ l.all :=
  List.mem_append_left _ (List.mem_map_of_mem (Scalar.mem_all kind))

theorem bottom_mem_all (l : Literals) : l.bottom ∈ l.all :=
  List.mem_append_right _ List.mem_cons_self

theorem scalar_injective (h : l.all.Nodup) {j k : Scalar} (hjk : l.scalar j = l.scalar k) :
    j = k :=
  List.inj_on_of_nodup_map (List.nodup_append.1 h).1 (Scalar.mem_all j) (Scalar.mem_all k) hjk

theorem scalar_ne_bottom (h : l.all.Nodup) (kind : Scalar) : l.scalar kind ≠ l.bottom :=
  (List.nodup_append.1 h).2.2 _ (List.mem_map_of_mem (Scalar.mem_all kind)) _ List.mem_cons_self

end Literals

/-! ## Meaning -/

/-- What the mark of a field says. -/
def Property.presence (p : Property) : Presence := if p.optional then .optional else .required

/-- A field with its type in full. -/
def Property.entry (tree : TypeExpr → TypeTree) (p : Property) : String × Presence × TypeTree :=
  (p.key, p.presence, tree p.type)

/-- An expression stands for a type. -/
inductive Denotes (literals : Literals) (ds : List Declaration) : TypeExpr → TypeTree → Prop
  | scalar (kind : Scalar) : Denotes literals ds (.literal (literals.scalar kind)) (.scalar kind)
  | bottom : Denotes literals ds (.literal literals.bottom) .bottom
  | array {item : TypeExpr} {t : TypeTree} (h : Denotes literals ds item t) :
      Denotes literals ds (.array item) (.array t)
  | union {arms : List TypeExpr} (tree : TypeExpr → TypeTree)
      (h : ∀ e ∈ arms, Denotes literals ds e (tree e)) :
      Denotes literals ds (.union arms) (.ofMembers (.ofList (arms.map tree)))
  | synonym {name : String} {type : TypeExpr} {t : TypeTree} (hd : .synonym name type ∈ ds)
      (h : Denotes literals ds type t) : Denotes literals ds (.name name) t
  | record {name : String} {asAlias : Bool} {ps : List Property} (tree : TypeExpr → TypeTree)
      (hd : .record name asAlias ps ∈ ds) (h : ∀ p ∈ ps, Denotes literals ds p.type (tree p.type)) :
      Denotes literals ds (.name name) (.ofFields (.ofList (ps.map (Property.entry tree))))

section Unique

variable {literals : Literals} {ds : List Declaration} {e : TypeExpr} {t u : TypeTree}

theorem eq_of_name_eq (hds : (ds.map Declaration.name).Nodup) {d d' : Declaration} (hd : d ∈ ds)
    (hd' : d' ∈ ds) (h : d.name = d'.name) : d = d' :=
  List.inj_on_of_nodup_map hds hd hd' h

/-- **An expression stands for one type.** -/
theorem Denotes.unique (hliterals : literals.all.Nodup) (hds : (ds.map Declaration.name).Nodup)
    (ht : Denotes literals ds e t) (hu : Denotes literals ds e u) : t = u := by
  induction ht generalizing u with
  | scalar kind =>
    generalize he : TypeExpr.literal (literals.scalar kind) = e at hu
    cases hu with
    | scalar k =>
      rw [TypeExpr.literal.injEq] at he
      rw [Literals.scalar_injective hliterals he]
    | bottom =>
      rw [TypeExpr.literal.injEq] at he
      exact absurd he (Literals.scalar_ne_bottom hliterals kind)
    | _ => cases he
  | bottom =>
    generalize he : TypeExpr.literal literals.bottom = e at hu
    cases hu with
    | scalar k =>
      rw [TypeExpr.literal.injEq] at he
      exact absurd he.symm (Literals.scalar_ne_bottom hliterals k)
    | bottom => rfl
    | _ => cases he
  | array _ ih =>
    cases hu with
    | array h => rw [ih h]
  | union tree _ ih =>
    cases hu with
    | union tree' h =>
      have htree : ∀ e ∈ _, tree e = tree' e := fun e he ↦ ih e he (h e he)
      rw [List.map_congr_left htree]
  | synonym hd _ ih =>
    cases hu with
    | synonym hd' h =>
      cases eq_of_name_eq hds hd hd' rfl
      exact ih h
    | record tree' hd' _ => cases eq_of_name_eq hds hd hd' rfl
  | record tree hd _ ih =>
    cases hu with
    | synonym hd' _ => cases eq_of_name_eq hds hd hd' rfl
    | record tree' hd' h =>
      cases eq_of_name_eq hds hd hd' rfl
      have hentry : ∀ p ∈ _, Property.entry tree p = Property.entry tree' p := fun p hp ↦ by
        rw [Property.entry, Property.entry, ih p hp (h p hp)]
      rw [List.map_congr_left hentry]

end Unique

/-- The type that an expression stands for. -/
noncomputable def meaning (literals : Literals) (ds : List Declaration) (e : TypeExpr) : TypeTree :=
  Classical.epsilon (Denotes literals ds e)

theorem Denotes.meaning_eq {literals : Literals} {ds : List Declaration} {e : TypeExpr}
    {t : TypeTree} (h : Denotes literals ds e t) (hliterals : literals.all.Nodup)
    (hds : (ds.map Declaration.name).Nodup) : meaning literals ds e = t :=
  (Classical.epsilon_spec ⟨t, h⟩ : Denotes literals ds e (meaning literals ds e)).unique
    hliterals hds h

end Silhouette
