/-!
# Names made of ASCII letters and digits

Three kinds of name occur in the program, and all three have one shape: a first character from one
class, then any number from another.  The classes are ASCII; a letter from any other alphabet is
never part of a name.

* `isIdentifier` — what may be declared: a letter, `_` or `$`, then letters, digits, `_` and `$`;
* `isTableName` — the table of a record id: the same without `$`;
* `isQueryId` — the name of a query: a capital letter, then letters, digits and `_`.

The whole text has to fit, so a name never ends in a line break.
-/

set_option autoImplicit false

namespace Silhouette.Text

/-- A first character of one class followed by characters of another, and nothing else. -/
def hasNameShape (first rest : Char → Bool) (s : String) : Bool :=
  match s.toList with
  | [] => false
  | c :: cs => first c && cs.all rest

def isIdentifierStart (c : Char) : Bool := c.isAlpha || c == '_' || c == '$'

def isIdentifierRest (c : Char) : Bool := c.isAlphanum || c == '_' || c == '$'

/-- A name that can be declared. -/
def isIdentifier (s : String) : Bool := hasNameShape isIdentifierStart isIdentifierRest s

/-- The table part of a record id. -/
def isTableName (s : String) : Bool :=
  hasNameShape (fun c ↦ c.isAlpha || c == '_') (fun c ↦ c.isAlphanum || c == '_') s

/-- The name of a query. -/
def isQueryId (s : String) : Bool :=
  hasNameShape Char.isUpper (fun c ↦ c.isAlphanum || c == '_') s

end Silhouette.Text
