import Silhouette.Text.Identifier

/-!
# Identifiers and numbers in texts

What an identifier is made of, and what can be put behind one.  Type names are the identifiers that
start with a capital and have letters and digits only.  And a number behind a text can be read back,
since it is written in decimal and without leading zeros.
-/

set_option autoImplicit false

namespace Silhouette.Text

/-! ## Identifiers -/

theorem hasNameShape_iff {first rest : Char → Bool} {s : String} :
    hasNameShape first rest s ↔ ∃ c cs, s.toList = c :: cs ∧ first c ∧ ∀ d ∈ cs, rest d := by
  rw [hasNameShape]
  cases hs : s.toList with
  | nil => simp
  | cons c cs =>
    dsimp only
    rw [Bool.and_eq_true, List.all_eq_true]
    refine ⟨fun h ↦ ⟨c, cs, rfl, h.1, h.2⟩, ?_⟩
    rintro ⟨d, ds, he, hd, hds⟩
    cases he
    exact ⟨hd, hds⟩

theorem hasNameShape_append {first rest : Char → Bool} {s t : String}
    (hs : hasNameShape first rest s) (ht : ∀ c ∈ t.toList, rest c) :
    hasNameShape first rest (s ++ t) := by
  obtain ⟨c, cs, hcs, hc, hrest⟩ := hasNameShape_iff.1 hs
  refine hasNameShape_iff.2 ⟨c, cs ++ t.toList, by rw [String.toList_append, hcs]; rfl, hc, ?_⟩
  exact List.forall_mem_append.2 ⟨hrest, ht⟩

theorem isIdentifier_iff {s : String} :
    isIdentifier s ↔ ∃ c cs, s.toList = c :: cs ∧ isIdentifierStart c ∧
      ∀ d ∈ cs, isIdentifierRest d :=
  hasNameShape_iff

theorem isIdentifierRest_of_start {c : Char} (h : isIdentifierStart c) : isIdentifierRest c := by
  rw [isIdentifierStart, Bool.or_eq_true, Bool.or_eq_true] at h
  rw [isIdentifierRest, Bool.or_eq_true, Bool.or_eq_true, Char.isAlphanum, Bool.or_eq_true]
  exact h.imp_left (Or.imp_left .inl)

theorem isIdentifierRest_of_isDigit {c : Char} (h : c.isDigit) : isIdentifierRest c := by
  rw [isIdentifierRest, Char.isAlphanum, h, Bool.or_true, Bool.true_or, Bool.true_or]

/-- An identifier has nothing but characters of identifiers in it. -/
theorem forall_isIdentifierRest {s : String} (h : isIdentifier s) :
    ∀ c ∈ s.toList, isIdentifierRest c := by
  obtain ⟨c, cs, hs, hc, hcs⟩ := isIdentifier_iff.1 h
  rw [hs]
  exact List.forall_mem_cons.2 ⟨isIdentifierRest_of_start hc, hcs⟩

theorem isIdentifier_append {s t : String} (hs : isIdentifier s)
    (ht : ∀ c ∈ t.toList, isIdentifierRest c) : isIdentifier (s ++ t) :=
  hasNameShape_append hs ht

/-! ## Type names -/

theorem isAlpha_of_isUpper {c : Char} (h : c.isUpper) : c.isAlpha :=
  (Bool.or_eq_true _ _).mpr (.inl h)

/-- A name for a type: a capital letter, then letters and digits. -/
def isTypeName (s : String) : Bool := hasNameShape Char.isUpper Char.isAlphanum s

theorem isTypeName_iff {s : String} :
    isTypeName s ↔ ∃ c cs, s.toList = c :: cs ∧ c.isUpper ∧ ∀ d ∈ cs, d.isAlphanum :=
  hasNameShape_iff

theorem isIdentifier_of_isTypeName {s : String} (h : isTypeName s) : isIdentifier s := by
  obtain ⟨c, cs, hs, hc, hcs⟩ := isTypeName_iff.1 h
  refine isIdentifier_iff.2 ⟨c, cs, hs, ?_, fun d hd ↦ ?_⟩
  · rw [isIdentifierStart, isAlpha_of_isUpper hc, Bool.true_or, Bool.true_or]
  · rw [isIdentifierRest, hcs d hd, Bool.true_or, Bool.true_or]

/-! ## Numbers -/

theorem isDigit_of_mem_toString {n : Nat} {c : Char} (h : c ∈ (toString n).toList) : c.isDigit := by
  rw [show toString n = n.repr from rfl, Nat.toList_repr] at h
  exact Nat.isDigit_of_mem_toDigits (by decide) (by decide) h

/-- Numbers behind a text can be told apart. -/
theorem append_toString_injective {s : String} {m n : Nat}
    (h : s ++ toString m = s ++ toString n) : m = n := by
  have hrepr : m.repr.toList = n.repr.toList :=
    congrArg String.toList ((String.append_right_inj _).1 h)
  rw [Nat.toList_repr, Nat.toList_repr] at hrepr
  have hval := congrArg (Nat.ofDigitChars 10 · 0) hrepr
  simpa only [Nat.ofDigitChars_toDigits (by decide : 1 < 10) (by decide : 10 ≤ 10)] using hval

end Silhouette.Text
