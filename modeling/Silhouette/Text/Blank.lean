/-!
# Blank characters and lines

`isBlank` is the Unicode property `White_Space`, which is wider than the blanks JSON allows between
its tokens: it decides which rows of a newline-delimited input are empty.

`lines` cuts a text at its line feeds.  A carriage return just before a line feed belongs to the
line end; one that stands anywhere else is part of the line.  A text that ends in a line feed has
no further, empty line after it.
-/

set_option autoImplicit false

namespace Silhouette.Text

/-- The ranges of the property `White_Space`, both ends included. -/
def blankRanges : List (Nat × Nat) :=
  [(0x09, 0x0D), (0x20, 0x20), (0x85, 0x85), (0xA0, 0xA0), (0x1680, 0x1680), (0x2000, 0x200A),
    (0x2028, 0x2029), (0x202F, 0x202F), (0x205F, 0x205F), (0x3000, 0x3000)]

/-- Whether a character is white space. -/
def isBlank (c : Char) : Bool := blankRanges.any fun r ↦ r.1 ≤ c.toNat && c.toNat ≤ r.2

/-- Whether a line holds nothing but white space. -/
def isBlankLine (line : String) : Bool := line.toList.all isBlank

/-- A line without the carriage return that its line feed followed; the line is held backwards. -/
def dropReturn : List Char → List Char
  | '\r' :: line => line
  | line => line

/-- The lines of a text whose current line so far is `line`, held backwards. -/
def linesFrom (line : List Char) : List Char → List (List Char)
  | [] => if line.isEmpty then [] else [line.reverse]
  | c :: rest =>
    if c = '\n' then (dropReturn line).reverse :: linesFrom [] rest
    else linesFrom (c :: line) rest

/-- The lines of a text, without their line ends. -/
def lines (s : String) : List String := (linesFrom [] s.toList).map String.ofList

/-- Lines that end in a line feed are read off one after another. -/
theorem linesFrom_append_newline (line a b : List Char) :
    linesFrom line (a ++ '\n' :: b) = linesFrom line (a ++ ['\n']) ++ linesFrom [] b := by
  induction a generalizing line with
  | nil => simp [linesFrom]
  | cons c a ih =>
    by_cases h : c = '\n' <;> simp [linesFrom, h, ih]

end Silhouette.Text
