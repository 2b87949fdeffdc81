import Silhouette.Binary64

/-!
# Numbers in JSON

A number is either a whole number that fits into 64 bits, with or without a sign, or a binary64
number with a sign of its own (so that `-0` stays apart from `0`).

`Numeral.text` writes one.  A whole number is written in full.  A binary64 number is written with
the fewest digits that read back, and never looks like a whole number: with a point and a digit
after it while its leading digit stands for a power of ten from −5 to 15, in scientific notation
otherwise.
-/

set_option autoImplicit false

namespace Silhouette.Json

/-- A number of a JSON value. -/
inductive Numeral where
  | whole (value : Int)
  | binary (negative : Bool) (magnitude : Magnitude)
deriving DecidableEq, Repr

namespace Numeral

/-- Digits with a decimal point, for a leading digit that stands for `10 ^ e`. -/
def positional (digits : List Char) (e : Int) : List Char :=
  if 0 ≤ e then
    let cut := e.toNat + 1
    let whole := digits.take cut
    let fraction := digits.drop cut
    whole ++ List.replicate (cut - whole.length) '0' ++ '.' ::
      (if fraction.isEmpty then ['0'] else fraction)
  else
    '0' :: '.' :: List.replicate (-e - 1).toNat '0' ++ digits

/-- Digits in scientific notation, for a leading digit that stands for `10 ^ e`. -/
def scientific (digits : List Char) (e : Int) : List Char :=
  let fraction := digits.drop 1
  digits.take 1 ++ (if fraction.isEmpty then [] else '.' :: fraction) ++ 'e' ::
    (if 0 ≤ e then '+' else '-') :: Nat.toDigits 10 e.natAbs

/-- A binary64 magnitude, written as short as it can be read back. -/
def magnitudeText (v : Magnitude) : List Char :=
  if v.isZero then ['0', '.', '0']
  else
    let (c, k) := v.shortest
    let digits := Nat.toDigits 10 c
    let e : Int := k + digits.length - 1
    if -5 ≤ e ∧ e ≤ 15 then positional digits e else scientific digits e

/-- The text of a number. -/
def text : Numeral → String
  | whole i => toString i
  | binary negative v => String.ofList ((if negative then ['-'] else []) ++ magnitudeText v)

end Numeral

end Silhouette.Json
