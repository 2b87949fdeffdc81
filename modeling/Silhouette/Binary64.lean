/-!
# Binary floating point with 64 bits

A finite non-negative number of the format is `mantissa · 2 ^ exponent` with a mantissa of at most
53 bits and an exponent between −1074 and 971.  `Magnitude` holds the two; a sign is kept apart by
whoever needs one.  All arithmetic is exact arithmetic on natural numbers followed by one rounding:

* `Magnitude.ofRatio?` rounds a quotient to the nearest number of the format, a tie to the even
  mantissa, and answers `none` past the largest one;
* `Magnitude.mul?` and `Magnitude.div?` are the exact product and quotient, rounded;
* `Magnitude.scale?` is `significand · 10 ^ exponent` by way of the rounded power of ten, so it may
  round twice — the way a reader of decimals works that never looks past 64 bits;
* `Magnitude.shortest` is the decimal with the fewest digits that still lies closer to the number
  than to its neighbours, and of those the nearest one.
-/

set_option autoImplicit false

namespace Silhouette

/-- A finite non-negative number `mantissa · 2 ^ exponent`. -/
structure Magnitude where
  mantissa : Nat
  exponent : Int
deriving DecidableEq, Repr

namespace Magnitude

def zero : Magnitude := ⟨0, -1074⟩

/-- The mantissa stays below this. -/
def mantissaEnd : Nat := 0x20000000000000

def isZero (v : Magnitude) : Bool := v.mantissa == 0

/-- The numerator of the number as a quotient of natural numbers. -/
def num (v : Magnitude) : Nat := v.mantissa * Nat.pow 2 v.exponent.toNat

/-- The denominator of the number as a quotient of natural numbers. -/
def den (v : Magnitude) : Nat := Nat.pow 2 (-v.exponent).toNat

/-! ## Rounding -/

/-- The natural number nearest to a quotient, the even one of two that are equally near. -/
def roundDiv (num den : Nat) : Nat :=
  let q := num / den
  let r := num % den
  if 2 * r < den ∨ (2 * r = den ∧ q % 2 = 0) then q else q + 1

/-- The exponent of the power of two at or below a quotient. -/
def log2Div (num den : Nat) : Int :=
  let guess : Int := (num.log2 : Int) - den.log2
  if den * Nat.pow 2 guess.toNat ≤ num * Nat.pow 2 (-guess).toNat then guess else guess - 1

/-- The number of the format nearest to a quotient; `none` if the quotient is too large. -/
def ofRatio? (num den : Nat) : Option Magnitude :=
  if num = 0 then some zero
  else
    let e := max (-1074) (log2Div num den - 52)
    let m := roundDiv (num * Nat.pow 2 (-e).toNat) (den * Nat.pow 2 e.toNat)
    let v : Magnitude := if m = mantissaEnd then ⟨mantissaEnd / 2, e + 1⟩ else ⟨m, e⟩
    if v.exponent ≤ 971 then some v else none

def mul? (v w : Magnitude) : Option Magnitude := ofRatio? (v.num * w.num) (v.den * w.den)

def div? (v w : Magnitude) : Option Magnitude := ofRatio? (v.num * w.den) (v.den * w.num)

/-! ## Decimals in -/

/-- The number nearest to a natural number. -/
def ofNat? (n : Nat) : Option Magnitude := ofRatio? n 1

/-- The largest power of ten that the format can hold a neighbour of. -/
def maxTen : Nat := 308

/-- `v · 10 ^ e`, rounded after every step.  Powers below `10 ^ (-308)` are divided out in several
steps; two of them take any number with an integral significand of 64 bits to zero, so `steps`
need not be larger than that. -/
def timesTen? : (steps : Nat) → (v : Magnitude) → (e : Int) → Option Magnitude
  | steps, v, e =>
    if e.natAbs ≤ maxTen then do
      let p ← ofNat? (Nat.pow 10 e.natAbs)
      if 0 ≤ e then v.mul? p else v.div? p
    else if v.isZero then some v
    else if 0 ≤ e then none
    else
      match steps with
      | 0 => some zero
      | steps + 1 => do
        let v ← v.div? (← ofNat? (Nat.pow 10 maxTen))
        timesTen? steps v (e + maxTen)

/-- `significand · 10 ^ exponent`, the significand rounded first; `none` if that is too large. -/
def scale? (significand : Nat) (exponent : Int) : Option Magnitude := do
  timesTen? 2 (← ofNat? significand) exponent

/-! ## Decimals out -/

/-- What the grid of the multiples of `10 ^ k` offers for a number: the multiple that reads back
as the number, the nearer one of two. -/
def onGrid? (v : Magnitude) (k : Int) : Option (Nat × Int) :=
  -- everything is counted in quarters of the last binary place and brought to whole numbers
  let unit := Nat.pow 10 k.toNat * Nat.pow 2 (2 - v.exponent).toNat
  let scale := Nat.pow 2 (v.exponent - 2).toNat * Nat.pow 10 (-k).toNat
  let here := 4 * v.mantissa * scale
  let below := if v.mantissa = mantissaEnd / 2 ∧ -1074 < v.exponent then 1 else 2
  let low := (4 * v.mantissa - below) * scale
  let high := (4 * v.mantissa + 2) * scale
  let within (c : Nat) : Bool :=
    if v.mantissa % 2 = 0 then low ≤ c * unit && c * unit ≤ high
    else low < c * unit && c * unit < high
  let c := here / unit
  match within c, within (c + 1) with
  | false, false => none
  | true, false => some (c, k)
  | false, true => some (c + 1, k)
  | true, true =>
    let down := here - c * unit
    let up := (c + 1) * unit - here
    if down < up ∨ (down = up ∧ c % 2 = 0) then some (c, k) else some (c + 1, k)

/-- The shortest decimal `digits · 10 ^ k` of a number that is not zero: the first hit on grids that
get finer from one place above the leading digit.  Seventeen digits are always enough. -/
def shortest (v : Magnitude) : Nat × Int :=
  let top : Int := ((v.mantissa.log2 : Int) + v.exponent) * 1233 / 4096 + 1
  ((List.range 20).findSome? fun (i : Nat) ↦ v.onGrid? (top - i)).getD (0, 0)

end Magnitude

end Silhouette
