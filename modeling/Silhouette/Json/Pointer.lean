import Silhouette.Json.Basic
import Silhouette.Text.Pieces

/-!
# JSON pointers

A pointer names a part of a value: the empty pointer the whole, `/a/0` the first element of what is
under `a`.  In a step `~1` stands for a slash and `~0` for a tilde, in that order, so that `~01`
comes out as `~1`.  A list takes a decimal index without a sign and without leading zeros.
-/

set_option autoImplicit false

namespace Silhouette.Json

namespace Pointer

/-- Every `~` that is followed by `code` becomes `c`. -/
def unescape (code c : Char) : List Char → List Char
  | '~' :: d :: rest =>
    if d = code then c :: unescape code c rest else '~' :: unescape code c (d :: rest)
  | d :: rest => d :: unescape code c rest
  | [] => []

/-- The steps of a pointer; `none` if it is neither empty nor starts with a slash. -/
def steps? (pointer : String) : Option (List String) :=
  match pointer.toList with
  | [] => some []
  | '/' :: rest =>
    some ((Text.piecesFrom '/' [] rest).map fun piece ↦
      String.ofList (unescape '0' '~' (unescape '1' '/' piece)))
  | _ => none

/-- A step as an index into a list. -/
def index? (step : String) : Option Nat :=
  match step.toList with
  | [] => none
  | ['0'] => some 0
  | '0' :: _ => none
  | cs =>
    if cs.all Char.isDigit then
      some (cs.foldl (fun n c ↦ n * 10 + (c.toNat - '0'.toNat)) 0)
    else none

/-- What a step leads to. -/
def step? (value : Json) (step : String) : Option Json :=
  match value with
  | .object members => member? step members
  | .array items => do items[← index? step]?
  | _ => none

end Pointer

/-- The part of a value that a pointer names. -/
def pointer? (value : Json) (pointer : String) : Option Json := do
  (← Pointer.steps? pointer).foldlM Pointer.step? value

end Silhouette.Json
