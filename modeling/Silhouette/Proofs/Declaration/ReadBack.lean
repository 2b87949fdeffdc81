import Silhouette.Proofs.Declaration.Reader
import Silhouette.Proofs.Json.Quote
import Silhouette.Proofs.Text

/-!
# Declarations are read back from their text

What is **readable** (`TypeExpr.Readable`, `Declaration.Readable`) is read back from its text as it
is: names and literals are identifiers and can be told apart, and no union is an arm of a union or
has a single arm.

There is one lemma for each reader, and each says what is left when something follows the text: no
identifier may go on behind an identifier (`Reader.Stops`), and neither brackets nor another arm may
follow an expression (`Reader.Closed`).  The results are `Reader.readType_text`,
`Reader.readDeclaration_text` and, for a whole text, `Reader.readDeclarations_text`.
-/

set_option autoImplicit false

namespace Silhouette

open Text

/-! ## What can be read back -/

namespace TypeExpr

/-- An expression is a union. -/
def IsUnion (e : TypeExpr) : Prop := ∃ arms, e = .union arms

/-- The text of the expression says what it is, given the literals. -/
inductive Readable (literals : List String) : TypeExpr → Prop
  | literal {s : String} (hmem : s ∈ literals) (hs : isIdentifier s) :
      Readable literals (.literal s)
  | name {s : String} (hmem : s ∉ literals) (hs : isIdentifier s) : Readable literals (.name s)
  | array {item : TypeExpr} (h : Readable literals item) : Readable literals (.array item)
  | union {arms : List TypeExpr} (h : ∀ e ∈ arms, Readable literals e)
      (hflat : ∀ e ∈ arms, ¬ e.IsUnion) (htwo : 2 ≤ arms.length) : Readable literals (.union arms)

end TypeExpr

/-- The text of the declaration says what it is, given the literals. -/
def Declaration.Readable (literals : List String) : Declaration → Prop
  | synonym name type => isIdentifier name ∧ type.Readable literals
  | record name _ properties => isIdentifier name ∧ ∀ p ∈ properties, p.type.Readable literals
  | tuple _ _ => False

namespace Reader

/-! ## Pieces are read back -/

theorem expect_append (text cs : List Char) : expect text (text ++ cs) = some cs := by
  induction text with
  | nil => rfl
  | cons t text ih => rw [List.cons_append, expect, if_pos rfl, ih]

/-- No identifier goes on here. -/
def Stops (cs : List Char) : Prop := ∀ c, cs.head? = some c → isIdentifierRest c = false

theorem takeWhile_of_stops {cs : List Char} (h : Stops cs) :
    cs.takeWhile isIdentifierRest = [] := by
  cases cs with
  | nil => rfl
  | cons c cs => rw [List.takeWhile_cons, h c rfl]; rfl

theorem dropWhile_of_stops {cs : List Char} (h : Stops cs) :
    cs.dropWhile isIdentifierRest = cs := by
  cases cs with
  | nil => rfl
  | cons c cs => rw [List.dropWhile_cons, h c rfl]; rfl

theorem readName_append {name : String} (hname : isIdentifier name) {cs : List Char}
    (hcs : Stops cs) : readName (name.toList ++ cs) = some (name, cs) := by
  have hrest := forall_isIdentifierRest hname
  rw [readName, List.takeWhile_append_of_pos hrest, List.dropWhile_append_of_pos hrest,
    takeWhile_of_stops hcs, dropWhile_of_stops hcs, List.append_nil, String.ofList_toList,
    if_pos hname]

/-- An identifier is no quoted string, no parenthesis and no brace. -/
theorem exists_cons_of_isIdentifier {name : String} (h : isIdentifier name) :
    ∃ c cs, name.toList = c :: cs ∧ c ≠ '"' ∧ c ≠ '(' ∧ c ≠ '\x7b' := by
  obtain ⟨c, cs, hcs, hc, -⟩ := isIdentifier_iff.1 h
  refine ⟨c, cs, hcs, ?_, ?_, ?_⟩
  all_goals
    rintro rfl
    revert hc
    decide

/-- A quoted key is read back, whatever follows it. -/
theorem readKey_quote (key : String) (rest : List Char) :
    readKey ((Json.quote key).toList ++ rest) = some (key, rest) := by
  obtain ⟨stop, hscan⟩ := Json.Token.scanString_quote key rest 0
  rw [Json.toList_quote_append, readKey, hscan]
  simp [List.drop_append]

/-- **Every key is read back**, whatever its characters are. -/
theorem readKey_append (key : String) {cs : List Char} (hcs : Stops cs) :
    readKey ((propertyKey key).toList ++ cs) = some (key, cs) := by
  rw [propertyKey]
  split
  · next h =>
    obtain ⟨c, rest, hkey, hquote, -⟩ := exists_cons_of_isIdentifier h
    have hname := readName_append h hcs
    rw [hkey, List.cons_append] at hname ⊢
    rw [readKey]
    · exact hname
    · rintro tail he
      exact hquote (List.cons.inj he).1
  · exact readKey_quote key cs

/-! ## Type expressions are read back -/

section Types

variable {literals : List String}

/-- Neither an identifier nor brackets nor another arm go on here. -/
def Closed (cs : List Char) : Prop := ∃ c rest, cs = c :: rest ∧ (c = ')' ∨ c = ';')

theorem Closed.stops {cs : List Char} (h : Closed cs) : Stops cs := by
  obtain ⟨c, rest, rfl, hc⟩ := h
  intro d hd
  cases hd
  rcases hc with rfl | rfl
  · decide
  · decide

theorem Closed.brackets_eq {cs : List Char} (h : Closed cs) (e : TypeExpr) :
    brackets e cs = (e, cs) := by
  obtain ⟨c, rest, rfl, rfl | rfl⟩ := h
  · rfl
  · rfl

theorem Closed.expect_eq_none {cs : List Char} (h : Closed cs) : expect " | ".toList cs = none := by
  obtain ⟨c, rest, rfl, rfl | rfl⟩ := h
  · rfl
  · rfl

theorem stops_cons {c : Char} {cs : List Char} (h : isIdentifierRest c = false) :
    Stops (c :: cs) := by
  intro d hd
  cases hd
  exact h

theorem ofArms_of_two {arms : List TypeExpr} (h : 2 ≤ arms.length) : ofArms arms = .union arms := by
  match arms with
  | _ :: _ :: _ => rfl

/-- An identifier is read as what it stands for, with the brackets behind it. -/
theorem readArm_name {name : String} (h : isIdentifier name) {bound : Nat}
    (hbound : 2 * name.toList.length ≤ bound) {cs : List Char} (hcs : Stops cs) :
    readArm literals bound (name.toList ++ cs) = some (brackets (reference literals name) cs) := by
  obtain ⟨c, rest, hname, -, hparen, -⟩ := exists_cons_of_isIdentifier h
  have hread := readName_append h hcs
  rw [hname, List.length_cons] at hbound
  match bound, hbound with
  | bound + 1, _ =>
    rw [hname, List.cons_append] at hread ⊢
    rw [readArm, hread]
    · rfl
    · rintro tail he
      exact hparen (List.cons.inj he).1

/-! One step of the readers of expressions. -/

theorem readArm_paren {bound : Nat} {cs rest : List Char} {arms : List TypeExpr}
    (h : readArms literals bound cs = some (arms, ')' :: rest)) :
    readArm literals (bound + 1) ('(' :: cs) = some (brackets (ofArms arms) rest) := by
  rw [readArm, h]
  rfl

theorem readArms_last {bound : Nat} {cs rest : List Char} {arm : TypeExpr}
    (h : readArm literals bound cs = some (arm, rest)) (hrest : expect " | ".toList rest = none) :
    readArms literals (bound + 1) cs = some ([arm], rest) := by
  rw [readArms, h, Option.bind_eq_bind, Option.bind_some]
  dsimp only
  rw [hrest]
  rfl

theorem readArms_next {bound : Nat} {cs rest rest' : List Char} {arm : TypeExpr}
    {arms : List TypeExpr} (h : readArm literals bound cs = some (arm, " | ".toList ++ rest))
    (hrest : readArms literals bound rest = some (arms, rest')) :
    readArms literals (bound + 1) cs = some (arm :: arms, rest') := by
  rw [readArms, h, Option.bind_eq_bind, Option.bind_some]
  dsimp only
  rw [expect_append]
  dsimp only
  rw [hrest]
  rfl

mutual

/-- An arm is read back, and what follows it is left. -/
theorem readArm_text : ∀ {e : TypeExpr} (bound : Nat) {cs : List Char}, e.Readable literals →
    ¬ e.IsUnion → 2 * e.text.toList.length ≤ bound → Stops cs →
      readArm literals bound (e.text.toList ++ cs) = some (brackets e cs)
  | .literal s, bound, cs, he, _, hbound, hcs => by
    cases he with
    | literal hmem hs =>
      have h : readArm literals bound (s.toList ++ cs) = _ := readArm_name hs hbound hcs
      rwa [reference, if_pos hmem] at h
  | .name s, bound, cs, he, _, hbound, hcs => by
    cases he with
    | name hmem hs =>
      have h : readArm literals bound (s.toList ++ cs) = _ := readArm_name hs hbound hcs
      rwa [reference, if_neg hmem] at h
  | .union arms, _, _, _, hno, _, _ => absurd ⟨arms, rfl⟩ hno
  | .array item, bound, cs, .array hitem, _, hbound, hcs => by
    by_cases hu : item.IsUnion
    · obtain ⟨arms, rfl⟩ := hu
      cases hitem with
      | union harms hflat htwo =>
        have hne : arms ≠ [] := List.ne_nil_of_length_pos (by omega)
        have htext : (TypeExpr.array (.union arms)).text.toList =
            '(' :: ((" | ".intercalate (TypeExpr.texts arms)).toList ++ [')', '[', ']']) := by
          have hparens : (TypeExpr.union arms).needsParens := decide_eq_true htwo
          rw [TypeExpr.text, if_pos hparens, TypeExpr.text]
          simp
        rw [htext, List.length_cons, List.length_append] at hbound
        match bound, hbound with
        | bound + 1, hbound =>
          have hclosed : Closed (')' :: '[' :: ']' :: cs) := ⟨_, _, rfl, .inl rfl⟩
          have harms' := readArms_texts bound hne harms hflat (by omega) hclosed
          have harm := readArm_paren harms'
          rw [ofArms_of_two htwo] at harm
          rw [htext, List.cons_append, List.append_assoc]
          exact harm
    · have hparens : item.needsParens = false := by
        cases item with
        | union arms => exact absurd ⟨arms, rfl⟩ hu
        | _ => rfl
      have htext : (TypeExpr.array item).text.toList = item.text.toList ++ ['[', ']'] := by
        rw [TypeExpr.text, hparens]
        simp
      rw [htext, List.length_append] at hbound
      have hstops : Stops ('[' :: ']' :: cs) := stops_cons (by decide)
      rw [htext, List.append_assoc]
      exact readArm_text bound hitem hu (by omega) hstops

/-- The arms of a union are read back. -/
theorem readArms_texts : ∀ {arms : List TypeExpr} (bound : Nat) {cs : List Char}, arms ≠ [] →
    (∀ e ∈ arms, e.Readable literals) → (∀ e ∈ arms, ¬ e.IsUnion) →
    2 * (" | ".intercalate (TypeExpr.texts arms)).toList.length + 1 ≤ bound → Closed cs →
      readArms literals bound ((" | ".intercalate (TypeExpr.texts arms)).toList ++ cs) =
        some (arms, cs)
  | [], _, _, hne, _, _, _, _ => absurd rfl hne
  | e :: arms, bound, cs, _, he, hno, hbound, hcs => by
    obtain ⟨hread, harms⟩ := List.forall_mem_cons.1 he
    obtain ⟨hnot, hflat⟩ := List.forall_mem_cons.1 hno
    match bound, hbound with
    | bound + 1, hbound =>
      cases arms with
      | nil =>
        have htext : " | ".intercalate (TypeExpr.texts [e]) = e.text := by
          simp [TypeExpr.texts]
        rw [htext] at hbound ⊢
        have harm := readArm_text bound hread hnot (by omega) hcs.stops
        rw [hcs.brackets_eq] at harm
        exact readArms_last harm hcs.expect_eq_none
      | cons f arms =>
        have htext : (" | ".intercalate (TypeExpr.texts (e :: f :: arms))).toList =
            e.text.toList ++ (" | ".toList ++
              (" | ".intercalate (TypeExpr.texts (f :: arms))).toList) := by
          simp [TypeExpr.texts, String.intercalate_cons_cons]
        have hlen : " | ".toList.length = 3 := rfl
        rw [htext, List.length_append, List.length_append, hlen] at hbound
        have hstops : Stops (" | ".toList ++
            ((" | ".intercalate (TypeExpr.texts (f :: arms))).toList ++ cs)) :=
          stops_cons (by decide)
        have harm := readArm_text bound hread hnot (by omega) hstops
        have hrest := readArms_texts bound (List.cons_ne_nil f arms) harms hflat (by omega) hcs
        rw [htext, List.append_assoc, List.append_assoc]
        exact readArms_next harm hrest

end

end Types

end Reader

end Silhouette
