import Silhouette.Declaration.Name

/-!
# Declarations and how they are written

A `TypeExpr` is a type as it stands behind a colon: the name of a declared type, a literal, a list
or a union.  In the written form `[]` binds tighter than ` | `, so a list of a union of two or more
takes parentheses; a literal is written as it is.

A `Declaration` gives a name to a type expression, to an object type or to a tuple, and every one is
exported.  A field of an object type has a line of its own, and so has an element of a tuple
(`Declaration.text_tuple`).
-/

set_option autoImplicit false

namespace Silhouette

/-- A type as it is referred to. -/
inductive TypeExpr where
  | literal (text : String)
  | name (name : String)
  | array (item : TypeExpr)
  | union (arms : List TypeExpr)
deriving Inhabited

namespace TypeExpr

/-- Whether a type has to stand in parentheses in front of `[]`. -/
def needsParens : TypeExpr → Bool
  | union arms => 1 < arms.length
  | _ => false

mutual

/-- A type, written out. -/
def text : TypeExpr → String
  | literal s => s
  | name s => s
  | array item => if item.needsParens then "(" ++ text item ++ ")[]" else text item ++ "[]"
  | union arms => " | ".intercalate (texts arms)

def texts : List TypeExpr → List String
  | [] => []
  | e :: rest => text e :: texts rest

end

theorem texts_eq_map (es : List TypeExpr) : texts es = es.map text := by
  induction es with
  | nil => rw [texts, List.map_nil]
  | cons e rest ih => rw [texts, ih, List.map_cons]

end TypeExpr

/-- A field of a declared object type. -/
structure Property where
  key : String
  optional : Bool
  type : TypeExpr

/-- A field on a line of its own. -/
def Property.text (p : Property) : String :=
  "  " ++ propertyKey p.key ++ (if p.optional then "?" else "") ++ ": " ++ p.type.text ++ ";\n"

/-- A declared type. -/
inductive Declaration where
  /-- Another name for a type. -/
  | synonym (name : String) (type : TypeExpr)
  /-- An object type, as an alias or as an interface. -/
  | record (name : String) (asAlias : Bool) (properties : List Property)
  /-- The types of some fields, one after another. -/
  | tuple (name : String) (elements : List TypeExpr)

namespace Declaration

/-- The name that is declared. -/
def name : Declaration → String
  | synonym name _ => name
  | record name _ _ => name
  | tuple name _ => name

/-- A declaration, written out. -/
def text : Declaration → String
  | synonym name type => "export type " ++ name ++ " = " ++ type.text ++ ";\n"
  | record name asAlias properties =>
    (if asAlias then "export type " ++ name ++ " = \x7b"
      else "export interface " ++ name ++ " \x7b") ++
      (if properties.isEmpty then "" else "\n" ++ String.join (properties.map Property.text)) ++
      (if asAlias then "\x7d;\n" else "\x7d\n")
  | tuple name elements =>
    if elements.isEmpty then "export type " ++ name ++ " = [];\n"
    else
      "export type " ++ name ++ " = [\n  " ++ ",\n  ".intercalate (elements.map TypeExpr.text) ++
        "\n];\n"

/-! ## The lines of a tuple -/

/-- A line for each element of a tuple, with a comma behind all but the last. -/
def elementLines : (elements : List TypeExpr) → List String
  | [] => []
  | [last] => ["  " ++ last.text]
  | e :: next :: rest => ("  " ++ e.text ++ ",") :: elementLines (next :: rest)

/-- The lines of a tuple: those of its elements stand between two others. -/
def tupleLines (name : String) (elements : List TypeExpr) : List String :=
  if elements.isEmpty then ["export type " ++ name ++ " = [];"]
  else ("export type " ++ name ++ " = [") :: (elementLines elements ++ ["];"])

theorem getElem?_elementLines (elements : List TypeExpr) (k : Nat) :
    (elementLines elements)[k]? = elements[k]?.map fun e ↦
      "  " ++ e.text ++ if k + 1 < elements.length then "," else "" := by
  induction elements using elementLines.induct generalizing k with
  | case1 => rfl
  | case2 last => cases k <;> simp [elementLines]
  | case3 e next rest ih =>
    cases k with
    | zero => simp [elementLines]
    | succ k => rw [elementLines, List.getElem?_cons_succ, ih]; simp

theorem join_elementLines (e : TypeExpr) (rest : List TypeExpr) :
    String.join ((elementLines (e :: rest)).map (· ++ "\n")) =
      "  " ++ ",\n  ".intercalate ((e :: rest).map TypeExpr.text) ++ "\n" := by
  induction rest generalizing e with
  | nil => simp [elementLines]
  | cons next rest ih =>
    have hcut : ∀ s : String, ",\n  " ++ s = ",\n" ++ ("  " ++ s) := fun s ↦ by
      rw [← String.append_assoc]
      rfl
    rw [elementLines, List.map_cons, String.join_cons, ih]
    simp [String.append_assoc, hcut]

/-- **The text of a tuple is its lines**, so every element has a line of its own. -/
theorem text_tuple (name : String) (elements : List TypeExpr) :
    (tuple name elements).text = String.join ((tupleLines name elements).map (· ++ "\n")) := by
  cases elements with
  | nil => simp [text, tupleLines, String.append_assoc]
  | cons e rest =>
    have hcut : ∀ s : String, " = [\n  " ++ s = " = [\n" ++ ("  " ++ s) := fun s ↦ by
      rw [← String.append_assoc]
      rfl
    rw [tupleLines, if_neg (by simp), List.map_cons, List.map_append, String.join_cons,
      String.join_append, join_elementLines, text, if_neg (by simp)]
    simp [String.append_assoc, hcut]

end Declaration

end Silhouette
