import Mathlib.Data.List.Perm.Basic
import Mathlib.Data.String.Basic
import Silhouette.Declaration.Emitter
import Silhouette.Proofs.Ordered
import Silhouette.Proofs.Text

/-!
# The natural order of keys

A key is taken apart into a stem that does not end in a digit and the run of digits behind it
(`NaturalKey.ofKey_append`).  Keys with one stem are ordered by the numbers that their runs stand
for, as far as these are below the largest number; all others, the empty run among them, count as
the largest number and are ordered as texts (`NaturalKey.compare_append`).

`naturalOrder` puts the fields of an object in this order and loses none of them
(`naturalOrder_perm`), so whoever has a list of the fields that is in order has the list
(`naturalOrder_eq`), and which of two fields stands first can be read off their keys
(`precedes_iff`).
-/

set_option autoImplicit false

namespace Silhouette

open Std

namespace Text

/-! ## Runs of digits -/

/-- A text that ends in a digit. -/
def EndsInDigit (s : String) : Prop := s.toList.getLast?.any Char.isDigit

instance (s : String) : Decidable (EndsInDigit s) :=
  inferInstanceAs (Decidable (s.toList.getLast?.any Char.isDigit = true))

/-- A text with nothing but digits in it. -/
def IsRun (s : String) : Prop := ∀ c ∈ s.toList, c.isDigit

instance (s : String) : Decidable (IsRun s) := List.decidableBAll _ s.toList

/-- The number that a run of digits stands for. -/
def runValue (s : String) : Nat := Nat.ofDigitChars 10 s.toList 0

/-- A text comes before the same text with something behind it. -/
theorem lt_append {s t : String} (h : t ≠ "") : s < s ++ t := by
  rw [String.lt_iff_toList_lt, String.toList_append]
  cases ht : t.toList with
  | nil => exact absurd (String.toList_eq_nil_iff.1 ht) h
  | cons c cs =>
    have hlt : s.toList ++ [] < s.toList ++ c :: cs := List.append_left_lt (List.nil_lt_cons c cs)
    rwa [List.append_nil] at hlt

end Text

open Text

namespace NaturalKey

/-! ## Taking a key apart -/

theorem takeWhile_reverse_of_not_endsInDigit {s : String} (h : ¬ EndsInDigit s) :
    s.toList.reverse.takeWhile Char.isDigit = [] := by
  cases hs : s.toList.reverse with
  | nil => rfl
  | cons c cs =>
    have hlast : s.toList.getLast? = some c := by
      rw [← List.head?_reverse, hs, List.head?_cons]
    rw [List.takeWhile_cons_of_neg]
    rwa [EndsInDigit, hlast] at h

theorem dropWhile_reverse_of_not_endsInDigit {s : String} (h : ¬ EndsInDigit s) :
    s.toList.reverse.dropWhile Char.isDigit = s.toList.reverse := by
  have := List.takeWhile_append_dropWhile (p := Char.isDigit) (l := s.toList.reverse)
  rwa [takeWhile_reverse_of_not_endsInDigit h, List.nil_append] at this

/-- **A key is taken apart at the digits that it ends in.** -/
theorem ofKey_append {stem run : String} (hstem : ¬ EndsInDigit stem) (hrun : IsRun run) :
    ofKey (stem ++ run) = ⟨stem, numberOf run.toList, stem ++ run⟩ := by
  have hdigits : ∀ c ∈ run.toList.reverse, c.isDigit := fun c hc ↦ hrun c (List.mem_reverse.1 hc)
  rw [ofKey, String.toList_append, List.reverse_append,
    List.takeWhile_append_of_pos hdigits, List.dropWhile_append_of_pos hdigits,
    takeWhile_reverse_of_not_endsInDigit hstem, dropWhile_reverse_of_not_endsInDigit hstem,
    List.append_nil, List.reverse_reverse, List.reverse_reverse, String.ofList_toList]

theorem ofKey_injective {x y : String} (h : ofKey x = ofKey y) : x = y :=
  congrArg whole h

/-! ## Numbers -/

theorem numberOf_toList {run : String} (h : run ≠ "") :
    numberOf run.toList = min maxNumber (runValue run) := by
  have hdigit : (fun n (c : Char) ↦ n * 10 + (c.toNat - '0'.toNat)) =
      fun n c ↦ 10 * n + (c.toNat - '0'.toNat) := by
    funext n c
    rw [Nat.mul_comm]
  rw [numberOf, if_neg (by simpa using h), hdigit]
  rfl

@[simp] theorem numberOf_nil : numberOf [] = maxNumber := rfl

/-! ## Comparing -/

theorem compare_eq (x y : NaturalKey) :
    compare x y =
      (compare x.stem y.stem).then ((compare x.number y.number).then (compare x.whole y.whole)) :=
  rfl

instance : LawfulEqOrd NaturalKey where
  eq_of_compare {x y} h := by
    rw [compare_eq, Ordering.then_eq_eq, Ordering.then_eq_eq] at h
    obtain ⟨hstem, hnumber, hwhole⟩ := h
    cases x
    cases y
    rw [mk.injEq]
    exact ⟨LawfulEqOrd.eq_of_compare hstem, LawfulEqOrd.eq_of_compare hnumber,
      LawfulEqOrd.eq_of_compare hwhole⟩

/-- **Keys with one stem are ordered by their numbers**, and as texts where these are the same. -/
theorem compare_append {stem x y : String} (hstem : ¬ EndsInDigit stem) (hx : IsRun x)
    (hy : IsRun y) :
    compare (ofKey (stem ++ x)) (ofKey (stem ++ y)) = .lt ↔
      numberOf x.toList < numberOf y.toList ∨
        numberOf x.toList = numberOf y.toList ∧ stem ++ x < stem ++ y := by
  rw [ofKey_append hstem hx, ofKey_append hstem hy, compare_eq, ReflOrd.compare_self,
    Ordering.eq_then, Ordering.then_eq_lt, Nat.compare_eq_lt, Nat.compare_eq_eq,
    compare_lt_iff_lt]

end NaturalKey

/-! ## Fields in natural order -/

theorem pairwise_naturalOrder (fields : Fields) :
    (naturalOrder fields).Pairwise fun e f ↦
      compare (NaturalKey.ofKey e.1) (NaturalKey.ofKey f.1) = .lt :=
  Ordered.increasing _

/-- **No field is lost, and none comes twice.** -/
theorem naturalOrder_perm (fields : Fields) : (naturalOrder fields).Perm fields.toList := by
  have hkeys : (fields.toList.map fun e ↦ NaturalKey.ofKey e.1).Nodup := by
    have h := fields.nodup_keys.map fun _ _ h ↦ NaturalKey.ofKey_injective h
    rwa [List.map_map] at h
  refine (List.perm_ext_iff_of_nodup (Ordered.nodup_toList _) fields.nodup_toList).2 fun e ↦ ?_
  exact Ordered.mem_ofList_of_nodup hkeys e

/-- The field under one key stands before the field under another. -/
def Precedes (l : List (String × Field)) (x y : String) : Prop := [x, y].Sublist (l.map Prod.fst)

/-- **Which of two fields stands first is decided by their keys.** -/
theorem precedes_iff {fields : Fields} {x y : String} (hx : x ∈ fields.keys)
    (hy : y ∈ fields.keys) :
    Precedes (naturalOrder fields) x y ↔
      compare (NaturalKey.ofKey x) (NaturalKey.ofKey y) = .lt := by
  have hpairwise : ((naturalOrder fields).map Prod.fst).Pairwise fun x y ↦
      compare (NaturalKey.ofKey x) (NaturalKey.ofKey y) = .lt :=
    List.pairwise_map.2 (pairwise_naturalOrder fields)
  have hmem : ∀ key, key ∈ fields.keys ↔ key ∈ (naturalOrder fields).map Prod.fst :=
    fun key ↦ ((naturalOrder_perm fields).map Prod.fst).mem_iff.symm
  rw [hmem] at hx hy
  refine ⟨List.pairwise_iff_forall_sublist.1 hpairwise, fun hlt ↦ ?_⟩
  rw [Precedes]
  obtain ⟨l₁, l₂, hl⟩ := List.append_of_mem hx
  rw [hl] at hy hpairwise ⊢
  obtain ⟨-, -, hbefore⟩ := List.pairwise_append.1 hpairwise
  rcases List.mem_append.1 hy with hy | hy
  · -- what stands before `x` is less than it
    have hgt := hbefore y hy x List.mem_cons_self
    rw [OrientedOrd.eq_swap, hgt] at hlt
    cases hlt
  · rcases List.mem_cons.1 hy with rfl | hy
    · rw [ReflOrd.compare_self] at hlt
      cases hlt
    · exact ((List.singleton_sublist.2 hy).cons_cons x).trans (List.sublist_append_right l₁ _)

end Silhouette
