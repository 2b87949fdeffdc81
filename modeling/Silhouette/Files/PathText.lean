import Silhouette.Text.Pieces
import Silhouette.Text.Utf8

/-!
# Paths as text

A path is a text whose pieces between slashes are names.  An empty piece and `.` stand for staying
where one is, `..` for going up; neither is a **name**.

* `PathText.parent?` — the path of the directory that holds what a path leads to;
* `PathText.stem` — the last name without its extension;
* `PathText.join` — a path and a name below it.

These look at the text alone.  What a path leads to is for `Silhouette.Files.Tree`.
-/

set_option autoImplicit false

namespace Silhouette.PathText

/-- The pieces of a path. -/
def pieces (path : String) : List String := Text.pieces '/' path

/-- Whether a piece stands for staying in a directory. -/
def isStay (piece : String) : Bool := piece = "" || piece = "."

/-- Whether a piece names something in a directory. -/
def isName (piece : String) : Bool := !isStay piece && piece ≠ ".."

/-- Whether a path starts at the top of everything. -/
def isAbsolute (path : String) : Bool := path.toList.head? = some '/'

/-- Whether a path is another way to write `.`. -/
def isHere (path : String) : Bool :=
  (pieces path).head? = some "." && (pieces path).all isStay

/-- A path and a name below it. -/
def join (path name : String) : String :=
  if path = "" || path.toList.getLast? = some '/' then path ++ name else path ++ "/" ++ name

/-! ## Limits -/

/-- How many bytes a path may have. -/
def maxPathBytes : Nat := 4095

/-- How many bytes a name may have. -/
def maxNameBytes : Nat := 255

def isTooLong (path : String) : Bool := maxPathBytes < Text.byteLength path.toList

def isNameTooLong (name : String) : Bool := maxNameBytes < Text.byteLength name.toList

/-! ## The last piece and what is before it -/

/-- A path, backwards and as characters, without the stays at its end.  The dot or slash that a
path starts with is none of them. -/
def dropStays : List Char → List Char
  | ['/'] => ['/']
  | '/' :: rest => dropStays rest
  | '.' :: '/' :: rest => if rest.isEmpty then ['/'] else dropStays rest
  | cs => cs

/-- The path of the directory that holds what a path leads to; the top of everything and the empty
path are held by nothing. -/
def parent? (path : String) : Option String :=
  match dropStays path.toList.reverse with
  | [] => none
  | ['/'] => none
  | cs => some (String.ofList (dropStays (cs.dropWhile (· ≠ '/'))).reverse)

/-- A name without its extension, which is what follows the last dot; a dot at the start of a name
begins no extension. -/
def withoutExtension (name : String) : String :=
  match name.toList.reverse.dropWhile (· ≠ '.') with
  | '.' :: c :: rest => String.ofList (c :: rest).reverse
  | _ => name

/-- The last name of a path without its extension; empty if the path ends in no name. -/
def stem (path : String) : String :=
  match (pieces path).reverse.find? fun piece ↦ !isStay piece with
  | some piece => if isName piece then withoutExtension piece else ""
  | none => ""

end Silhouette.PathText
