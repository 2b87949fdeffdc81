import Silhouette.Declaration.TypeExpr
import Silhouette.Json.Token

/-!
# A reader for declarations

The text of declarations is read as its grammar says, by a reader that knows the literals and
nothing else about what is declared:

* `readArm`, `readArms` — type expressions, in which `[]` binds tighter than ` | `;
* `readProperty` — a field, whose key is an identifier or a quoted string, with its mark;
* `readDeclaration` — an interface, an alias for an object type or for a type expression;
* `readDeclarations` — any number of declarations with an empty line between any two.

Every reader answers what it has read and the characters that are left.  Expressions nest, and the
number of characters bounds how deep.  Tuples are not read.
-/

set_option autoImplicit false

namespace Silhouette

open Text

namespace Reader

/-! ## Pieces -/

/-- What comes after a text that has to come first. -/
def expect : (text : List Char) → List Char → Option (List Char)
  | [], cs => some cs
  | _ :: _, [] => none
  | t :: text, c :: cs => if t = c then expect text cs else none

/-- An identifier, as long as it goes on. -/
def readName (cs : List Char) : Option (String × List Char) :=
  let name := String.ofList (cs.takeWhile isIdentifierRest)
  if isIdentifier name then some (name, cs.dropWhile isIdentifierRest) else none

/-- A key, as an identifier or as a quoted string. -/
def readKey : List Char → Option (String × List Char)
  | '"' :: cs =>
    match Json.Token.scanString 0 [] 0 0 cs with
    | .ok (key, length, _) => some (key, cs.drop length)
    | .error _ => none
  | cs => readName cs

/-- Whether a field is marked as optional. -/
def readMark : List Char → Bool × List Char
  | '?' :: cs => (true, cs)
  | cs => (false, cs)

/-! ## Type expressions -/

/-- The brackets behind an expression make it a list, and a list of lists, and so on. -/
def brackets (e : TypeExpr) : List Char → TypeExpr × List Char
  | '[' :: ']' :: cs => brackets (.array e) cs
  | cs => (e, cs)

/-- What an identifier stands for. -/
def reference (literals : List String) (name : String) : TypeExpr :=
  if name ∈ literals then .literal name else .name name

/-- The expression with the given arms. -/
def ofArms : List TypeExpr → TypeExpr
  | [only] => only
  | arms => .union arms

mutual

/-- An expression in parentheses or an identifier, with the brackets behind it. -/
def readArm (literals : List String) : (bound : Nat) → List Char → Option (TypeExpr × List Char)
  | 0, _ => none
  | bound + 1, '(' :: cs => do
    let (arms, cs) ← readArms literals bound cs
    let cs ← expect [')'] cs
    return brackets (ofArms arms) cs
  | _ + 1, cs => do
    let (name, cs) ← readName cs
    return brackets (reference literals name) cs

/-- The arms of a union, or the only one. -/
def readArms (literals : List String) :
    (bound : Nat) → List Char → Option (List TypeExpr × List Char)
  | 0, _ => none
  | bound + 1, cs => do
    let (arm, cs) ← readArm literals bound cs
    match expect " | ".toList cs with
    | none => return ([arm], cs)
    | some cs =>
      let (arms, cs) ← readArms literals bound cs
      return (arm :: arms, cs)

end

/-- A type expression. -/
def readType (literals : List String) (cs : List Char) : Option (TypeExpr × List Char) := do
  let (arms, cs) ← readArms literals (2 * cs.length + 1) cs
  return (ofArms arms, cs)

/-! ## Declarations -/

end Reader

end Silhouette
