import Mathlib
import Silhouette.Proofs.Declaration.Name

/-!
# What a name keeps of its key

`pascalCase` puts a key into a normal form.

* The name is the runs of letters and digits of the key, in order and each with a capital at its
  start (`capitalizeRuns_eq`).  What is between the runs is lost.  Nothing else is, up to capitals:
  the name has all the letters and digits of the key (`map_toLower_capitalizeRuns`).
* A `T` stands in front if the first of them is a digit (`toList_pascalCase`), and a key without any
  is called `Type` (`pascalCase_of_lettersAndDigits_eq_nil`).
* The keys that are their own names are just the type names (`pascalCase_eq_self_iff`), so a name
  made of a name is that name.

A run ends at a character that is no letter or digit, and both `runs` and `capitalizeRuns` start
anew behind it.  Everything about them follows from these two equations, run by run
(`runs_induction`).

Names get longer: an emitter puts `Item` and numbers behind them.  `Suffixed base name` says that a
name is a base with such things behind it, and it is a type name if the base is one.
-/

set_option autoImplicit false

namespace Silhouette

/-! ## Runs -/

namespace Text

/-- The runs of letters and digits in a text, in order. -/
def runs (cs : List Char) : List (List Char) :=
  (cs.splitOnP fun c ↦ !c.isAlphanum).filter fun run ↦ !run.isEmpty

/-- A run with a capital at its start. -/
def capitalize (run : List Char) : List Char := run.modifyHead Char.toUpper

/-- The runs of a text are those before a cut and those behind it. -/
theorem runs_append {x y : List Char} {c : Char} (hc : ¬ c.isAlphanum) :
    runs (x ++ c :: y) = runs x ++ runs y := by
  have hcut : (!c.isAlphanum) = true := by rw [Bool.eq_false_iff.2 hc, Bool.not_false]
  rw [runs, List.splitOnP_append_cons x y hcut, List.filter_append]
  rfl

theorem runs_nil : runs [] = [] := by rw [runs, List.splitOnP_nil]; rfl

/-- Letters and digits on their own are one run. -/
theorem runs_of_forall {x : List Char} (hne : x ≠ []) (h : ∀ c ∈ x, c.isAlphanum) :
    runs x = [x] := by
  have hno : ∀ c ∈ x, (!c.isAlphanum) = false := fun c hc ↦ by rw [h c hc, Bool.not_true]
  rw [runs, List.splitOnP_eq_singleton hno, List.filter_cons_of_pos (by simpa using hne)]
  rfl

/-- A text is one run, or it is cut somewhere. -/
theorem runs_induction {motive : List Char → Prop} (nil : motive [])
    (run : ∀ x, x ≠ [] → (∀ c ∈ x, c.isAlphanum) → motive x)
    (cut : ∀ x c y, ¬ c.isAlphanum → motive x → motive y → motive (x ++ c :: y))
    (cs : List Char) : motive cs := by
  by_cases hall : ∀ c ∈ cs, c.isAlphanum
  · by_cases hne : cs = []
    · rw [hne]
      exact nil
    · exact run cs hne hall
  · -- any cut will do, since what is before it and behind it is shorter
    obtain ⟨c, hmem, hc⟩ : ∃ c ∈ cs, ¬ c.isAlphanum := by simpa using hall
    obtain ⟨x, y, rfl⟩ := List.append_of_mem hmem
    exact cut x c y hc (runs_induction nil run cut x) (runs_induction nil run cut y)
termination_by cs.length
decreasing_by
  all_goals
    subst_vars
    simp only [List.length_append, List.length_cons]
    omega

theorem flatten_runs (cs : List Char) : (runs cs).flatten = cs.filter Char.isAlphanum := by
  induction cs using runs_induction with
  | nil => rw [runs_nil]; rfl
  | run x hne h => rw [runs_of_forall hne h, List.flatten_singleton, List.filter_eq_self.2 h]
  | cut x c y hc hx hy =>
    rw [runs_append hc, List.flatten_append, hx, hy, List.filter_append,
      List.filter_cons_of_neg hc]

end Text

open Text

/-! ## Capitals -/

theorem capitalizeRuns_append {x y : List Char} {c : Char} (hc : ¬ c.isAlphanum) (atStart : Bool) :
    capitalizeRuns atStart (x ++ c :: y) =
      capitalizeRuns atStart x ++ capitalizeRuns true y := by
  induction x generalizing atStart with
  | nil => exact if_neg hc
  | cons d x ih =>
    rw [List.cons_append, capitalizeRuns, capitalizeRuns]
    split
    · rw [ih, List.cons_append]
    · exact ih true

/-- Inside a run there is no capital to put. -/
theorem capitalizeRuns_false_of_forall {x : List Char} (h : ∀ c ∈ x, c.isAlphanum) :
    capitalizeRuns false x = x := by
  induction x with
  | nil => rfl
  | cons c x ih =>
    obtain ⟨hc, hx⟩ := List.forall_mem_cons.1 h
    rw [capitalizeRuns, if_pos hc, if_neg Bool.false_ne_true, ih hx]

theorem capitalizeRuns_of_forall {x : List Char} (h : ∀ c ∈ x, c.isAlphanum) :
    capitalizeRuns true x = capitalize x := by
  cases x with
  | nil => rfl
  | cons c x =>
    obtain ⟨hc, hx⟩ := List.forall_mem_cons.1 h
    rw [capitalizeRuns, if_pos hc, if_pos rfl, capitalizeRuns_false_of_forall hx]
    rfl

/-- **The runs, each with a capital at its start.** -/
theorem capitalizeRuns_eq (cs : List Char) :
    capitalizeRuns true cs = (runs cs).flatMap capitalize := by
  induction cs using runs_induction with
  | nil => rw [runs_nil]; rfl
  | run x hne h => rw [capitalizeRuns_of_forall h, runs_of_forall hne h, List.flatMap_singleton]
  | cut x c y hc hx hy => rw [capitalizeRuns_append hc, runs_append hc, List.flatMap_append, hx, hy]

theorem not_isDigit_of_isAlpha {c : Char} (h : c.isAlpha) : ¬ c.isDigit := by
  simp only [Char.isAlpha, Char.isUpper, Char.isLower, Char.isDigit, UInt32.le_iff_toNat_le,
    Bool.or_eq_true, Bool.and_eq_true, decide_eq_true_eq] at h ⊢
  have hA : 'A'.val.toNat = 65 := rfl
  have ha : 'a'.val.toNat = 97 := rfl
  have h9 : '9'.val.toNat = 57 := rfl
  omega

theorem isDigit_toLower (c : Char) : c.toLower.isDigit = c.isDigit := by
  by_cases hc : c.isUpper
  · have halpha := isAlpha_of_isUpper hc
    have hlower : c.toLower.isAlpha := by rw [Char.isAlpha_toLower_eq_isAlpha, halpha]
    rw [Bool.eq_false_iff.2 (not_isDigit_of_isAlpha halpha),
      Bool.eq_false_iff.2 (not_isDigit_of_isAlpha hlower)]
  · rw [Char.toLower_eq_of_not_isUpper hc]

theorem map_toLower_capitalize (run : List Char) :
    (capitalize run).map Char.toLower = run.map Char.toLower := by
  cases run with
  | nil => rfl
  | cons c run => exact congrArg (· :: run.map Char.toLower) (Char.toLower_toUpper_eq_toLower c)

/-- **Up to capitals, the letters and digits are all kept**, and nothing else is. -/
theorem map_toLower_capitalizeRuns (cs : List Char) :
    (capitalizeRuns true cs).map Char.toLower =
      (cs.filter Char.isAlphanum).map Char.toLower := by
  calc (capitalizeRuns true cs).map Char.toLower
      = (runs cs).flatMap fun run ↦ (capitalize run).map Char.toLower := by
        rw [capitalizeRuns_eq, List.map_flatMap]
    _ = (runs cs).flatMap fun run ↦ run.map Char.toLower := by
        simp only [map_toLower_capitalize]
    _ = (runs cs).flatten.map Char.toLower := by rw [List.map_flatten, List.flatMap_def]
    _ = (cs.filter Char.isAlphanum).map Char.toLower := by rw [flatten_runs]

/-! ## Names of keys -/

/-- What a name keeps of a key. -/
def lettersAndDigits (key : String) : List Char := key.toList.filter Char.isAlphanum

theorem pascalCase_of_lettersAndDigits_eq_nil {key : String} (h : lettersAndDigits key = []) :
    pascalCase key = "Type" := by
  have hnone : capitalizeRuns true key.toList = [] := by
    rw [← List.map_eq_nil_iff (f := Char.toLower), map_toLower_capitalizeRuns,
      ← lettersAndDigits, h, List.map_nil]
  rw [pascalCase, hnone]

/-- **The letters and digits of a key**, up to capitals and behind a `T` if a digit comes first. -/
theorem toList_pascalCase {key : String} {c : Char} {cs : List Char}
    (h : lettersAndDigits key = c :: cs) :
    (pascalCase key).toList =
      (if c.isDigit then ['T'] else []) ++ (runs key.toList).flatMap capitalize := by
  have hlower := map_toLower_capitalizeRuns key.toList
  rw [← lettersAndDigits, h] at hlower
  rw [pascalCase, ← capitalizeRuns_eq]
  cases hruns : capitalizeRuns true key.toList with
  | nil =>
    rw [hruns] at hlower
    cases hlower
  | cons d ds =>
    rw [hruns, List.map_cons, List.map_cons, List.cons.injEq] at hlower
    dsimp only
    -- the capital in front is a digit just if what it was made of is one
    rw [String.toList_ofList, ← isDigit_toLower d, hlower.1, isDigit_toLower]
    split
    · rfl
    · rfl

/-! ## Names that are keys -/

/-- A type name is its own name. -/
theorem pascalCase_of_isTypeName {name : String} (h : isTypeName name) :
    pascalCase name = name := by
  obtain ⟨c, cs, hname, hc, hcs⟩ := isTypeName_iff.1 h
  have halnum : ∀ d ∈ c :: cs, d.isAlphanum :=
    List.forall_mem_cons.2 ⟨by rw [Char.isAlphanum, isAlpha_of_isUpper hc, Bool.true_or], hcs⟩
  have hupper : c.toUpper = c := Char.toUpper_eq_of_not_isLower (Char.not_isLower_of_isUpper hc)
  have hdigit : ¬ c.isDigit := not_isDigit_of_isAlpha (isAlpha_of_isUpper hc)
  have hruns : capitalizeRuns true name.toList = c :: cs := by
    rw [hname, capitalizeRuns_of_forall halnum, capitalize, List.modifyHead_cons, hupper]
  rw [pascalCase, hruns]
  dsimp only
  rw [if_neg hdigit, ← hname, String.ofList_toList]

/-- **The type names are the keys that are their own names.** -/
theorem pascalCase_eq_self_iff {name : String} : pascalCase name = name ↔ isTypeName name :=
  ⟨fun h ↦ h ▸ isTypeName_pascalCase name, pascalCase_of_isTypeName⟩

/-- **A name made of a name is that name.** -/
theorem pascalCase_pascalCase (key : String) : pascalCase (pascalCase key) = pascalCase key :=
  pascalCase_of_isTypeName (isTypeName_pascalCase key)

/-! ## Longer names -/

/-- A name that is a base with `Item`s and numbers behind it. -/
inductive Suffixed (base : String) : String → Prop
  | base : Suffixed base base
  | item {name : String} (h : Suffixed base name) : Suffixed base (name ++ "Item")
  | number {name : String} (h : Suffixed base name) (n : Nat) : Suffixed base (name ++ toString n)

namespace Suffixed

variable {base name : String}

theorem trans {name' : String} (h : Suffixed base name) (h' : Suffixed name name') :
    Suffixed base name' := by
  induction h' with
  | base => exact h
  | item _ ih => exact ih.item
  | number _ n ih => exact ih.number n

/-- Only letters and digits are put behind a base. -/
theorem exists_append_eq (h : Suffixed base name) :
    ∃ behind, name = base ++ behind ∧ ∀ c ∈ behind.toList, c.isAlphanum := by
  have hadd : ∀ behind more : String, (∀ c ∈ behind.toList, c.isAlphanum) →
      (∀ c ∈ more.toList, c.isAlphanum) → ∀ c ∈ (behind ++ more).toList, c.isAlphanum :=
    fun behind more hbehind hmore ↦ by
      rw [String.toList_append]
      exact List.forall_mem_append.2 ⟨hbehind, hmore⟩
  induction h with
  | base => exact ⟨"", String.append_empty.symm, fun c hc ↦ by cases hc⟩
  | item _ ih =>
    obtain ⟨behind, rfl, hbehind⟩ := ih
    have hitem : "Item".toList.all Char.isAlphanum := by decide
    exact ⟨behind ++ "Item", String.append_assoc,
      hadd behind "Item" hbehind (List.all_eq_true.1 hitem)⟩
  | number _ n ih =>
    obtain ⟨behind, rfl, hbehind⟩ := ih
    refine ⟨behind ++ toString n, String.append_assoc, hadd behind _ hbehind fun c hc ↦ ?_⟩
    rw [Char.isAlphanum, isDigit_of_mem_toString hc, Bool.or_true]

theorem isTypeName (h : Suffixed base name) (hbase : Text.isTypeName base) :
    Text.isTypeName name := by
  obtain ⟨behind, rfl, hbehind⟩ := h.exists_append_eq
  exact hasNameShape_append hbase hbehind

end Suffixed

/-- A fresh name is its base, or the base with a number behind it. -/
theorem suffixed_freshName (taken : TakenNames) (base : String) :
    Suffixed base (freshName taken base) := by
  obtain ⟨k, -, heq, -⟩ := exists_freshName_eq taken base
  rw [heq]
  cases k with
  | zero => exact .base
  | succ k => exact .number .base (k + 2)

end Silhouette
