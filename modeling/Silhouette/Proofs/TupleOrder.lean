import Silhouette.Proofs.Declaration.Tuples
import Silhouette.Proofs.EmissionFaults

/-!
# The order of the elements of a tuple

Fields whose keys differ in the number at their end stand in a tuple in the order of these numbers,
as long as they are below the largest number of 64 bits.  A run of digits with that value or a
larger one counts as the largest number, and so does no run at all; among those the order of the
texts decides (`Emitter.tuple_order_iff`).

In natural order a key without a number comes before those that have one, and a number before all
larger ones.  So a tuple is not in natural order: its keys without numbers come after all numbers of
common size, and of two very long numbers the larger one may come first
(`Emitter.tuple_order_not_natural`).
-/

set_option autoImplicit false

namespace Silhouette

open Registry Text

variable {fields : Fields} {stem x y : String}

/-! ## Which of two keys comes first -/

/-- The smaller number comes first if it is not too large; otherwise texts are compared. -/
theorem precedes_runs_iff (hstem : ¬ EndsInDigit stem) (hx : IsRun x) (hy : IsRun y)
    (hx' : x ≠ "") (hy' : y ≠ "") (hkx : stem ++ x ∈ fields.keys) (hky : stem ++ y ∈ fields.keys) :
    Precedes (naturalOrder fields) (stem ++ x) (stem ++ y) ↔
      runValue x < runValue y ∧ runValue x < NaturalKey.maxNumber ∨
        (runValue x = runValue y ∨
          NaturalKey.maxNumber ≤ runValue x ∧ NaturalKey.maxNumber ≤ runValue y) ∧
            stem ++ x < stem ++ y := by
  rw [precedes_iff hkx hky, NaturalKey.compare_append hstem hx hy, NaturalKey.numberOf_toList hx',
    NaturalKey.numberOf_toList hy']
  refine or_congr ?_ (and_congr_left' ?_)
  · omega
  · omega

/-- No number comes before those that are too large, and after all others. -/
theorem precedes_stem_iff (hstem : ¬ EndsInDigit stem) (hx : IsRun x) (hx' : x ≠ "")
    (hk : stem ∈ fields.keys) (hkx : stem ++ x ∈ fields.keys) :
    Precedes (naturalOrder fields) stem (stem ++ x) ↔ NaturalKey.maxNumber ≤ runValue x := by
  have hempty : IsRun "" := fun c hc ↦ absurd hc List.not_mem_nil
  have hcompare := NaturalKey.compare_append hstem hempty hx
  rw [String.append_empty] at hcompare
  rw [precedes_iff hk hkx, hcompare, NaturalKey.numberOf_toList hx',
    show "".toList = [] from rfl, NaturalKey.numberOf_nil]
  have htext : stem < stem ++ x := lt_append hx'
  simp only [htext, and_true]
  omega

namespace Emitter

/-! ## Objects with scalars in them -/

/-- Required fields of scalar types. -/
def scalarEntries (kinds : List (String × Scalar)) : List (String × Field) :=
  kinds.map fun entry ↦ (entry.1, ⟨.required, .scalar entry.2⟩)

/-- What is inferred of an object, if its fields are scalars, is declared as a tuple. -/
theorem exists_emit_of_scalars {v : Json} {kinds : List (String × Scalar)}
    (h : (inferValue 256 v).toOption.bind (fun s ↦ s.types.describe? s.root) =
      some (.object (.ofList (scalarEntries kinds)))) :
    ∃ s e', inferValue 256 v = .ok s ∧
      s.types.describe? s.root = some (.object (.ofList (scalarEntries kinds))) ∧
      (new { rootAsTuple := true }).emit s "Root" = (.ok (), e') := by
  cases hs : inferValue 256 v with
  | error error =>
    rw [hs] at h
    cases h
  | ok s =>
    rw [hs] at h
    have hname : isIdentifier "Root" := by decide
    obtain ⟨e', he'⟩ := (Structure.Inferred.value hs).exists_emit_eq (new { rootAsTuple := true })
      hname
    exact ⟨s, e', rfl, h, he'⟩

/-- The elements of the tuple are the scalars in natural order. -/
theorem exists_tuple_of_scalars {v : Json} {kinds order : List (String × Scalar)}
    (h : (inferValue 256 v).toOption.bind (fun s ↦ s.types.describe? s.root) =
      some (.object (.ofList (scalarEntries kinds))))
    (horder : naturalOrder (.ofList (scalarEntries kinds)) = scalarEntries order) :
    ∃ s e' more, inferValue 256 v = .ok s ∧
      s.types.describe? s.root = some (.object (.ofList (scalarEntries kinds))) ∧
      (new { rootAsTuple := true }).emit s "Root" = (.ok (), e') ∧
      e'.declarations = .tuple (freshName (new { rootAsTuple := true }).taken "Root")
        (order.map fun entry ↦ .literal entry.2.name) :: more := by
  obtain ⟨s, e', hs, hroot, hemit⟩ := exists_emit_of_scalars h
  obtain ⟨names, elements, more, hdeclarations, -, helements⟩ :=
    exists_tuple_of_emit (e := new { rootAsTuple := true }) rfl hroot hemit
  rw [horder, scalarEntries, List.forall₂_map_left_iff] at helements
  have hliterals : order.map (fun entry ↦ TypeExpr.literal entry.2.name) = elements := by
    rw [← List.forall₂_eq_eq_eq, List.forall₂_map_left_iff]
    exact helements.imp fun entry element ↦ Except.ok.inj
  exact ⟨s, e', more, hs, hroot, hemit, hliterals ▸ hdeclarations⟩

/-- A key without a number, and keys with a small one, one that starts with a zero and the largest
of 64 bits. -/
def numberedKeys : Json :=
  .object [("a", .null), ("a2", .bool true), ("a010", .string ""), ("a18446744073709551615", .null)]

/-- The types under these keys. -/
def numberedKinds : List (String × Scalar) :=
  [("a", .null), ("a2", .boolean), ("a010", .string), ("a18446744073709551615", .null)]

/-! ## The tuple -/

/-- **A tuple is in natural order as far as numbers have 64 bits.**  Where an object at the root is
declared as a tuple, the tuple is the first declaration of its structure, and its elements are the
types of all fields, one after another, in an order for which this holds:

* Of two keys with one stem and numbers behind it, the one with the smaller number comes first if
  that is below the largest number of 64 bits.  If the numbers are the same, or neither is below the
  largest one, the smaller text comes first.
* A stem alone comes before a key with a number behind that stem just if the number is not below the
  largest number of 64 bits.

A stem is any text that does not end in a digit, and numbers may start with zeros. -/
theorem tuple_order_iff {e e' : Emitter} (htuple : e.options.rootAsTuple) {s : Structure}
    {fields : Fields} (hroot : s.types.describe? s.root = some (.object fields)) {name : String}
    (h : e.emit s name = (.ok (), e')) :
    ∃ names elements more order,
      e'.declarations = e.declarations ++ .tuple (freshName e.taken name) elements :: more ∧
      Adds e.options s (freshName e.taken name) names
        (.tuple (freshName e.taken name) elements :: more) ∧
      order.Perm fields.toList ∧
      List.Forall₂ (fun f element ↦
        typeExpr e.options.literals s.types names f.2.type = .ok element) order elements ∧
      ∀ stem, ¬ EndsInDigit stem →
        (∀ x y, IsRun x → IsRun y → x ≠ "" → y ≠ "" →
          stem ++ x ∈ fields.keys → stem ++ y ∈ fields.keys →
            (Precedes order (stem ++ x) (stem ++ y) ↔
              runValue x < runValue y ∧ runValue x < 2 ^ 64 - 1 ∨
                (runValue x = runValue y ∨
                  2 ^ 64 - 1 ≤ runValue x ∧ 2 ^ 64 - 1 ≤ runValue y) ∧ stem ++ x < stem ++ y)) ∧
        ∀ x, IsRun x → x ≠ "" → stem ∈ fields.keys → stem ++ x ∈ fields.keys →
          (Precedes order stem (stem ++ x) ↔ 2 ^ 64 - 1 ≤ runValue x) := by
  obtain ⟨names, elements, more, hdeclarations, hadds, helements⟩ :=
    exists_tuple_of_emit htuple hroot h
  refine ⟨names, elements, more, naturalOrder fields, hdeclarations, hadds,
    naturalOrder_perm fields, helements, fun stem hstem ↦ ⟨?_, ?_⟩⟩
  · intro x y hx hy hx' hy' hkx hky
    exact precedes_runs_iff hstem hx hy hx' hy' hkx hky
  · intro x hx hx' hk hkx
    exact precedes_stem_iff hstem hx hx' hk hkx

/-- The numbers are in their order, and the key without a number stands before the last of them. -/
theorem tuple_order_numberedKeys :
    ∃ s e' elements more order,
      inferValue 256 numberedKeys = .ok s ∧
      (new { rootAsTuple := true }).emit s "Root" = (.ok (), e') ∧
      e'.declarations =
        .tuple (freshName (new { rootAsTuple := true }).taken "Root") elements :: more ∧
      order.Perm (scalarEntries numberedKinds) ∧ elements.length = 4 ∧
      Precedes order "a2" "a010" ∧ Precedes order "a010" "a18446744073709551615" ∧
      ¬ Precedes order "a" "a010" ∧ Precedes order "a" "a18446744073709551615" := by
  obtain ⟨s, e', hs, hroot, hemit⟩ := exists_emit_of_scalars
    (by cbv : (inferValue 256 numberedKeys).toOption.bind (fun s ↦ s.types.describe? s.root) =
      some (.object (.ofList (scalarEntries numberedKinds))))
  obtain ⟨names, elements, more, order, hdeclarations, -, hperm, helements, horder⟩ :=
    tuple_order_iff (e := new { rootAsTuple := true }) rfl hroot hemit
  obtain ⟨hruns, halone⟩ := horder "a" (by decide)
  refine ⟨s, e', elements, more, order, hs, hemit, hdeclarations, hperm.trans (by decide),
    ?_, ?_, ?_, ?_, ?_⟩
  · rw [← helements.length_eq, hperm.length_eq]
    decide
  · exact (hruns "2" "010" (by decide) (by decide) (by decide) (by decide) (by decide)
      (by decide)).2 (.inl (by decide))
  · exact (hruns "010" "18446744073709551615" (by decide) (by decide) (by decide) (by decide)
      (by decide) (by decide)).2 (.inl (by decide))
  · exact (halone "010" (by decide) (by decide) (by decide) (by decide)).not.2 (by decide)
  · exact (halone "18446744073709551615" (by decide) (by decide) (by decide) (by decide)).2
      (by decide)

/-- **A tuple need not be in natural order.**  The key `q` comes after `q1` in the tuple of an
object that has both; and of two numbers with more than 64 bits the larger one comes first if its
text is the smaller one. -/
theorem tuple_order_not_natural :
    (∃ s e' more, inferValue 256 (.object [("q", .bool true), ("q1", .string "a")]) = .ok s ∧
      s.types.describe? s.root =
        some (.object (.ofList (scalarEntries [("q", .boolean), ("q1", .string)]))) ∧
      (new { rootAsTuple := true }).emit s "Root" = (.ok (), e') ∧
      e'.declarations = .tuple (freshName (new { rootAsTuple := true }).taken "Root")
        [.literal "string", .literal "boolean"] :: more) ∧
    runValue "99999999999999999999" < runValue "100000000000000000000" ∧
    ∃ s e' more, inferValue 256 (.object [("a99999999999999999999", .bool true),
        ("a100000000000000000000", .string "s")]) = .ok s ∧
      s.types.describe? s.root = some (.object (.ofList (scalarEntries
        [("a99999999999999999999", .boolean), ("a100000000000000000000", .string)]))) ∧
      (new { rootAsTuple := true }).emit s "Root" = (.ok (), e') ∧
      e'.declarations = .tuple (freshName (new { rootAsTuple := true }).taken "Root")
        [.literal "string", .literal "boolean"] :: more := by
  have halone : naturalOrder (.ofList (scalarEntries [("q", .boolean), ("q1", .string)])) =
      scalarEntries [("q1", .string), ("q", .boolean)] := by decide +kernel
  have hlong : naturalOrder (.ofList (scalarEntries
      [("a99999999999999999999", .boolean), ("a100000000000000000000", .string)])) =
        scalarEntries
          [("a100000000000000000000", .string), ("a99999999999999999999", .boolean)] := by
    decide +kernel
  exact ⟨exists_tuple_of_scalars (by cbv) halone, by decide, exists_tuple_of_scalars (by cbv) hlong⟩

end Emitter

end Silhouette
