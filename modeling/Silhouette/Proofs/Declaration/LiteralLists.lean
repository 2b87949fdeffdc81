import Mathlib
import Silhouette.Proofs.Declaration.Spliced
import Silhouette.Proofs.Inference.Inferred
import Silhouette.Proofs.MarkerGrammar

/-!
# Lists of what is written as a literal

Square brackets are put behind a literal as they are, though a literal may be a union.  What that
changes is seen by counting how deep lists are nested: brackets behind several arms leave all but
the last as they were, while a list of several arms nests each of them
(`Arms.before_eq_nil_of_value`).

For every literal there is a type that is written as it is (`Literals.WrittenAs`), and some sample
is a list of values of that type (`Literals.exists_list`).
-/

set_option autoImplicit false

namespace Silhouette

open Registry Text

/-! ## Brackets behind arms -/

/-- How deep lists are nested in each of the arms of a type. -/
def Interpretation.depths : Interpretation (Finset ℕ) where
  reference _ _ := {0}
  list arms := {arms.sup id + 1}
  object _ := {0}

theorem TypeSyntax.nonempty_depths (t : TypeSyntax) : (t.value .depths).Nonempty := by
  match t with
  | .reference _ _ => exact Finset.singleton_nonempty _
  | .list _ => exact Finset.singleton_nonempty _
  | .union t u => exact (nonempty_depths t).mono Finset.subset_union_left

/-- **Brackets behind arms make a list of them only if there is one.** -/
theorem Arms.before_eq_nil_of_value {a : Arms}
    (h : a.bracket.type.value .depths = Interpretation.depths.list (a.type.value .depths)) :
    a.before = [] := by
  obtain ⟨before, last⟩ := a
  cases before with
  | nil => rfl
  | cons t before =>
    obtain ⟨n, hn⟩ := t.nonempty_depths
    have hlist : n ∈ (Arms.mk (t :: before) last).bracket.type.value .depths :=
      Finset.mem_union_left _ hn
    have harms : n ∈ (Arms.mk (t :: before) last).type.value .depths := Finset.mem_union_left _ hn
    rw [h] at hlist
    have hle := Finset.le_sup (f := id) harms
    rw [Finset.mem_singleton.1 hlist] at hle
    exact absurd hle (Nat.not_succ_le_self _)

/-! ## Types that are written as literals -/

/-- The types that are written as literals. -/
inductive Literals.WrittenAs (literals : Literals) : TypeTree → String → Prop
  | scalar (kind : Scalar) : WrittenAs literals (.scalar kind) (literals.scalar kind)
  | bottom : WrittenAs literals .bottom literals.bottom

namespace Literals.WrittenAs

variable {literals : Literals} {t : TypeTree} {l : String}

theorem mem_all (h : literals.WrittenAs t l) : l ∈ literals.all := by
  cases h with
  | scalar kind => exact literals.scalar_mem_all kind
  | bottom => exact literals.bottom_mem_all

theorem valueOf_eq {A : Type} [SemilatticeSup A] (I : Interpretation A) (spell : String → Arms)
    (h : literals.WrittenAs t l) : literals.valueOf I spell t = (spell l).type.value I := by
  cases h <;> rfl

/-- Nothing else is written for such a type. -/
theorem expresses_eq {r : Registry} {names : Names} {id : TypeId} {e : TypeExpr}
    (h : literals.WrittenAs t l) (hu : r.Unfolds id t) (he : Expresses literals r names id e) :
    e = .literal l := by
  cases hu with
  | scalar kind =>
    cases h
    cases he
    rfl
  | @node id d tree hg _ =>
    generalize hd : d.toTree tree = t at h
    cases h with
    | scalar kind => cases d <;> cases hd
    | bottom =>
      cases d with
      | object | array => cases hd
      | union members =>
        have himage : (members.image tree).toList = [] := TypeTree.union.inj hd
        have hnil : members.toList = [] := Ordered.toList_eq_nil_iff.2 fun m hm ↦
          Ordered.toList_eq_nil_iff.1 himage _ (Ordered.mem_image.2 ⟨m, hm, rfl⟩)
        cases he with
        | object hg' => cases hg.symm.trans hg'
        | array hg' => cases hg.symm.trans hg'
        | bottom => rfl
        | union _ hg' hne =>
          cases hg.symm.trans hg'
          exact absurd hnil hne

end Literals.WrittenAs

/-- A root that is a list of such a type is written with brackets behind the literal. -/
theorem Literals.WrittenAs.expresses_list_eq {literals : Literals} {t : TypeTree} {l : String}
    {r : Registry} {names : Names} {id : TypeId} {e : TypeExpr} (h : literals.WrittenAs t l)
    (hu : r.Unfolds id (.array t)) (he : Expresses literals r names id e) :
    e = .array (.literal l) := by
  obtain ⟨item, hitem, hui⟩ := hu.exists_item
  obtain ⟨n, rfl, hg⟩ := describe?_eq_some_iff.1 hitem
  cases he with
  | array hg' he =>
    cases hg.symm.trans hg'
    rw [h.expresses_eq hui he]
  | object hg' | bottom hg' | union _ hg' => cases hg.symm.trans hg'

/-! ## Samples -/

/-- A sample of a kind. -/
def Scalar.sample : Scalar → Json
  | string => .string "a"
  | number => .number (.whole 0)
  | boolean => .bool false
  | null => .null
  | undefined => .object [("$undefined", .bool true)]
  | date => .object [("$date", .string "2024-05-01T10:00:00Z")]
  | recordId => .object [("$recordId", .string "user:1")]
  | uuid => .object [("$uuid", .string "00000000-0000-0000-0000-000000000000")]

theorem Scalar.ofValue_sample (kind : Scalar) : Kind.ofValue kind.sample = .ok (.scalar kind) := by
  cases kind with
  | string | number | boolean | null => rfl
  | undefined => exact Kind.ofValue_of_hasKind .undefined
  | date => exact Kind.ofValue_of_hasKind (.date (by decide +kernel))
  | recordId => exact Kind.ofValue_of_hasKind (.recordId (RecordId.check_eq_ok_iff.1 rfl))
  | uuid => exact Kind.ofValue_of_hasKind (.uuid (by decide +kernel))

theorem Scalar.isOk_inferSamples (kind : Scalar) : (inferSamples 1 [kind.sample]).isOk := by
  cases kind <;> decide +kernel

theorem Scalar.unfolds_list {kind : Scalar} {limit : Nat} {s : Structure}
    (h : inferSamples limit [kind.sample] = .ok s) :
    s.types.Unfolds s.root (.array (.scalar kind)) := by
  have hitems : TypeTree.ofItems? [kind.sample] = some [.scalar kind] := by
    rw [TypeTree.ofItems?, TypeTree.ofJson?_of_scalar kind.ofValue_sample]
    rfl
  have hfold : TypeTree.fold (.ofList [.scalar kind]) = .scalar kind :=
    TypeTree.fold_of_singleton rfl
  obtain ⟨t, ht, hu⟩ := inferValue_unfolds (inferSamples_eq limit _ ▸ h)
  rw [TypeTree.ofJson?, hitems, Option.map_some, hfold] at ht
  rwa [Option.some.inj ht]

/-- **For every literal there are samples whose type is a list of the type that is written so.** -/
theorem Literals.exists_list {literals : Literals} {l : String} (hl : l ∈ literals.all) :
    ∃ (t : TypeTree) (s : Structure), literals.WrittenAs t l ∧ s.Inferred ∧
      s.types.Unfolds s.root (.array t) := by
  rcases List.mem_append.1 hl with hl | hl
  · obtain ⟨kind, -, rfl⟩ := List.mem_map.1 hl
    obtain ⟨s, hs⟩ := exists_ok_of_isOk kind.isOk_inferSamples
    exact ⟨_, s, .scalar kind, .samples hs, Scalar.unfolds_list hs⟩
  · obtain rfl := List.mem_singleton.1 hl
    obtain ⟨s, hs⟩ := exists_ok_of_isOk (by decide +kernel : (inferSamples 1 []).isOk)
    obtain ⟨t, ht, hu⟩ := inferValue_unfolds (inferSamples_eq 1 _ ▸ hs)
    obtain rfl := Option.some.inj (ht.symm.trans TypeTree.ofJson?_emptyList)
    exact ⟨_, s, .bottom, .samples hs, hu⟩

end Silhouette
