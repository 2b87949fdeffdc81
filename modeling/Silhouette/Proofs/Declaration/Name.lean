import Mathlib.Data.List.Nodup
import Mathlib.Data.List.Perm.Subperm
import Silhouette.Declaration.Name
import Silhouette.Proofs.Text

/-!
# Names that are handed out

Every name that the emitter makes is an identifier if the name of the root is one: names made of
keys are even type names (`isTypeName_pascalCase`), and what is put behind a name, `Item` or a
number, keeps it one (`Text.isIdentifier_append`).

A fresh name is the first candidate that is free (`exists_freshName_eq`).  Candidates with different
numbers are different (`nameCandidate_injective`), so among one more than there are taken names one
is free, and the bounded search comes upon it (`freshName_not_mem`).
-/

set_option autoImplicit false

namespace Silhouette

open Text

/-! ## Names for keys -/

theorem toNat_lt_of_isAlphanum {c : Char} (h : c.isAlphanum) : c.toNat < 128 := by
  have hlast : ∀ last : Char, last.toNat < 128 → c.val ≤ last.val → c.toNat < 128 :=
    fun last hlt hle ↦ Nat.lt_of_le_of_lt (UInt32.le_iff_toNat_le.1 hle) hlt
  rw [Char.isAlphanum, Bool.or_eq_true] at h
  rcases h with halpha | hdigit
  · rcases (Bool.or_eq_true _ _).mp (show (c.isUpper || c.isLower) = true from halpha) with
      hupper | hlower
    · have hrange : c.val ≥ 'A'.val ∧ c.val ≤ 'Z'.val := of_decide_eq_true hupper
      exact hlast 'Z' (by decide) hrange.2
    · exact hlast 'z' (by decide) (of_decide_eq_true (Bool.and_eq_true_iff.1 hlower).2)
  · exact hlast '9' (by decide) (of_decide_eq_true (Bool.and_eq_true_iff.1 hdigit).2)

/-- A letter gets a capital, and a digit stays one. -/
theorem isUpper_or_isDigit_toUpper {c : Char} (h : c.isAlphanum) :
    c.toUpper.isUpper ∨ c.toUpper.isDigit := by
  have hall : ∀ n < 128, (Char.ofNat n).isAlphanum →
      (Char.ofNat n).toUpper.isUpper ∨ (Char.ofNat n).toUpper.isDigit := by decide
  have hc := hall c.toNat (toNat_lt_of_isAlphanum h)
  rw [Char.ofNat_toNat] at hc
  exact hc h

theorem isAlphanum_toUpper {c : Char} (h : c.isAlphanum) : c.toUpper.isAlphanum := by
  rw [Char.isAlphanum, Bool.or_eq_true]
  exact (isUpper_or_isDigit_toUpper h).imp_left isAlpha_of_isUpper

theorem isAlphanum_of_mem_capitalizeRuns {atStart : Bool} {cs : List Char} {c : Char}
    (h : c ∈ capitalizeRuns atStart cs) : c.isAlphanum := by
  induction cs generalizing atStart with
  | nil => cases h
  | cons d cs ih =>
    rw [capitalizeRuns] at h
    split at h
    · next hd =>
      rcases List.mem_cons.1 h with rfl | h
      · split
        · exact isAlphanum_toUpper hd
        · exact hd
      · exact ih h
    · exact ih h

/-- The first run starts with a capital, unless it starts with a digit. -/
theorem isUpper_or_isDigit_of_capitalizeRuns_eq_cons {cs rest : List Char} {c : Char}
    (h : capitalizeRuns true cs = c :: rest) : c.isUpper ∨ c.isDigit := by
  induction cs with
  | nil => cases h
  | cons d cs ih =>
    rw [capitalizeRuns] at h
    split at h
    · next hd =>
      rw [if_pos rfl] at h
      cases h
      exact isUpper_or_isDigit_toUpper hd
    · exact ih h

/-- **Whatever the key, its name is that of a type.** -/
theorem isTypeName_pascalCase (key : String) : isTypeName (pascalCase key) := by
  rw [pascalCase]
  split
  · decide
  · next c cs hcs =>
    have halnum : ∀ d ∈ c :: cs, d.isAlphanum := fun d hd ↦
      isAlphanum_of_mem_capitalizeRuns (hcs ▸ hd)
    rw [isTypeName_iff, String.toList_ofList]
    by_cases hdigit : c.isDigit
    · exact ⟨'T', c :: cs, if_pos hdigit, by decide, halnum⟩
    · exact ⟨c, cs, if_neg hdigit,
        (isUpper_or_isDigit_of_capitalizeRuns_eq_cons hcs).resolve_right hdigit,
        fun d hd ↦ halnum d (List.mem_cons_of_mem c hd)⟩

/-- Whatever the key, its name can be declared. -/
theorem isIdentifier_pascalCase (key : String) : isIdentifier (pascalCase key) :=
  isIdentifier_of_isTypeName (isTypeName_pascalCase key)

/-! ## Fresh names -/

theorem nameCandidate_injective {base : String} {m n : Nat}
    (h : nameCandidate base m = nameCandidate base n) : m = n := by
  have hbase : ∀ k, base ≠ base ++ toString (k + 2) := fun k e ↦
    Nat.repr_ne_empty (String.append_eq_left_iff.1 e.symm)
  cases m with
  | zero =>
    cases n with
    | zero => rfl
    | succ n => exact absurd h (hbase n)
  | succ m =>
    cases n with
    | zero => exact absurd h.symm (hbase m)
    | succ n =>
      have := append_toString_injective h
      omega

variable {taken : TakenNames} {base : String}

/-- When a name is taken, nothing else is. -/
theorem mem_insert_taken {name name' : String} :
    name' ∈ taken.insert name ↔ name' = name ∨ name' ∈ taken := by
  rw [Std.TreeSet.mem_insert, Std.LawfulEqCmp.compare_eq_iff_eq, eq_comm]

/-- A bounded search comes upon the first free candidate, or passes over all of them. -/
theorem exists_firstFree_eq (taken : TakenNames) (base : String) (probes n : Nat) :
    ∃ k, n ≤ k ∧ k ≤ n + probes ∧ firstFree taken base probes n = nameCandidate base k ∧
      (∀ i, n ≤ i → i < k → nameCandidate base i ∈ taken) ∧
      (k < n + probes → nameCandidate base k ∉ taken) := by
  induction probes generalizing n with
  | zero =>
    exact ⟨n, Nat.le_refl n, Nat.le_refl n, rfl, fun i hi hlt ↦ absurd hlt (Nat.not_lt.2 hi),
      fun h ↦ absurd h (Nat.lt_irrefl n)⟩
  | succ probes ih =>
    rw [firstFree]
    split
    · next hmem =>
      obtain ⟨k, hk, hle, heq, hall, hfree⟩ := ih (n + 1)
      refine ⟨k, by omega, by omega, heq, fun i hi hlt ↦ ?_, fun h ↦ hfree (by omega)⟩
      rcases Nat.eq_or_lt_of_le hi with rfl | hi
      · exact hmem
      · exact hall i hi hlt
    · next hfree =>
      exact ⟨n, Nat.le_refl n, by omega, rfl, fun i hi hlt ↦ absurd hlt (Nat.not_lt.2 hi),
        fun _ ↦ hfree⟩

/-- There are fewer taken names than candidates up to the number of taken names. -/
theorem exists_candidate_not_mem (taken : TakenNames) (base : String) :
    ∃ k ≤ taken.size, nameCandidate base k ∉ taken := by
  by_contra hall
  have hsub : (List.range (taken.size + 1)).map (nameCandidate base) ⊆ taken.toList := by
    intro name hname
    obtain ⟨k, hk, rfl⟩ := List.mem_map.1 hname
    rw [Std.TreeSet.mem_toList]
    by_contra hfree
    exact hall ⟨k, Nat.lt_succ_iff.1 (List.mem_range.1 hk), hfree⟩
  have hnodup : ((List.range (taken.size + 1)).map (nameCandidate base)).Nodup :=
    List.Nodup.map (fun _ _ h ↦ nameCandidate_injective h) List.nodup_range
  have hlen := hnodup.length_le_of_subset hsub
  rw [List.length_map, List.length_range, Std.TreeSet.length_toList] at hlen
  omega

/-- **A fresh name is the first free candidate.** -/
theorem exists_freshName_eq (taken : TakenNames) (base : String) :
    ∃ k ≤ taken.size, freshName taken base = nameCandidate base k ∧
      nameCandidate base k ∉ taken ∧ ∀ i < k, nameCandidate base i ∈ taken := by
  obtain ⟨k, -, hle, heq, hall, hfree⟩ := exists_firstFree_eq taken base taken.size 0
  rw [Nat.zero_add] at hle hfree
  refine ⟨k, hle, heq, ?_, fun i hi ↦ hall i (Nat.zero_le i) hi⟩
  rcases Nat.eq_or_lt_of_le hle with rfl | hlt
  · -- all candidates before are taken, so the last one is the free one
    obtain ⟨j, hj, hnot⟩ := exists_candidate_not_mem taken base
    rcases Nat.eq_or_lt_of_le hj with rfl | hj
    · exact hnot
    · exact absurd (hall j (Nat.zero_le j) hj) hnot
  · exact hfree hlt

/-- There is only one first free candidate. -/
theorem freshName_eq_of_first_free {k : Nat} (hfree : nameCandidate base k ∉ taken)
    (htaken : ∀ i < k, nameCandidate base i ∈ taken) :
    freshName taken base = nameCandidate base k := by
  obtain ⟨k', -, heq, hfree', htaken'⟩ := exists_freshName_eq taken base
  rcases Nat.lt_trichotomy k k' with hlt | rfl | hlt
  · exact absurd (htaken' k hlt) hfree
  · exact heq
  · exact absurd (htaken k' hlt) hfree'

theorem freshName_not_mem (taken : TakenNames) (base : String) : freshName taken base ∉ taken := by
  obtain ⟨k, -, heq, hfree, -⟩ := exists_freshName_eq taken base
  rw [heq]
  exact hfree

theorem freshName_of_not_mem (h : base ∉ taken) : freshName taken base = base := by
  obtain ⟨k, -, heq, -, htaken⟩ := exists_freshName_eq taken base
  cases k with
  | zero => exact heq
  | succ k => exact absurd (htaken 0 (Nat.succ_pos k)) h

theorem isIdentifier_freshName (taken : TakenNames) (h : isIdentifier base) :
    isIdentifier (freshName taken base) := by
  obtain ⟨k, -, heq, -⟩ := exists_freshName_eq taken base
  rw [heq]
  cases k with
  | zero => exact h
  | succ k =>
    exact isIdentifier_append h fun c hc ↦ isIdentifierRest_of_isDigit (isDigit_of_mem_toString hc)

end Silhouette
