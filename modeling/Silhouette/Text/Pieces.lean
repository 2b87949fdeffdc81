/-!
# Text cut at a character

`Text.pieces c` cuts a text at every `c`.  There is one piece more than there are cuts, so a text
without `c` is its own single piece, and pieces may be empty.
-/

set_option autoImplicit false

namespace Silhouette.Text

/-- The pieces of a text between separators; `piece` is the current one so far, backwards. -/
def piecesFrom (separator : Char) (piece : List Char) : List Char → List (List Char)
  | [] => [piece.reverse]
  | c :: rest =>
    if c = separator then piece.reverse :: piecesFrom separator [] rest
    else piecesFrom separator (c :: piece) rest

/-- The pieces of a text between separators. -/
def pieces (separator : Char) (s : String) : List String :=
  (piecesFrom separator [] s.toList).map String.ofList

end Silhouette.Text
