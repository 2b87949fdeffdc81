import Silhouette.Json.Printer
import Silhouette.Ordered
import Silhouette.Text.Identifier
import Std.Data.TreeSet.Basic

/-!
# Names

* `pascalCase` makes a type name of a key: the runs of ASCII letters and digits in it, each with a
  capital at its start.  What would start with a digit gets a `T` in front, and a key without
  letters and digits is called `Type`.
* `freshName` is a base name, or the base name with the least number from 2 on that makes a name not
  yet taken.  Among one more candidate than there are taken names one is free, so the search is
  bounded by that.  Its numbers have no bound of their own: a `NameFinder` that counts in 32 bits
  finds the same as long as there are fewer than `nameLimit` taken names.
* `propertyKey` writes a key as a name if it is one and in quotes otherwise.
* `NaturalKey` orders keys that end in numbers by those numbers.
-/

set_option autoImplicit false

namespace Silhouette

/-! ## Type names -/

/-- The letters and digits of a key, with a capital wherever one starts a run; `atStart` says that
the next one does. -/
def capitalizeRuns (atStart : Bool) : List Char → List Char
  | [] => []
  | c :: rest =>
    if c.isAlphanum then (if atStart then c.toUpper else c) :: capitalizeRuns false rest
    else capitalizeRuns true rest

/-- A type name for a key. -/
def pascalCase (key : String) : String :=
  match capitalizeRuns true key.toList with
  | [] => "Type"
  | c :: rest => String.ofList (if c.isDigit then 'T' :: c :: rest else c :: rest)

/-! ## Names that are not taken -/

/-- The candidate number `n` for a name: the base itself, then the base with 2, 3, … behind it. -/
def nameCandidate (base : String) : (n : Nat) → String
  | 0 => base
  | n + 1 => base ++ toString (n + 2)

/-- The names that were handed out or must not be. -/
abbrev TakenNames := Std.TreeSet String

/-- A way to find a name, close to a base, that is not taken. -/
abbrev NameFinder := TakenNames → String → String

/-- So many names have to be taken before the numbers of 32 bits, from 2 on, may run out: a base,
and the base with each number but the largest. -/
def nameLimit : Nat := 2147483646

/-- The first candidate from number `n` on that is not taken, after at most `probes` that are. -/
def firstFree (taken : TakenNames) (base : String) : (probes n : Nat) → String
  | 0, n => nameCandidate base n
  | probes + 1, n =>
    if nameCandidate base n ∈ taken then firstFree taken base probes (n + 1)
    else nameCandidate base n

/-- A name that is not taken. -/
def freshName : NameFinder := fun taken base ↦ firstFree taken base taken.size 0

/-! ## Property names -/

/-- A key in front of its type. -/
def propertyKey (key : String) : String := if Text.isIdentifier key then key else Json.quote key

/-! ## Natural order -/

/-- A key taken apart at the digits that it ends in.  Their number has 64 bits; a key without such
digits, or with too many of them, counts as the largest. -/
structure NaturalKey where
  stem : String
  number : Nat
  whole : String
deriving DecidableEq, Repr

namespace NaturalKey

/-- The largest number. -/
def maxNumber : Nat := 0xffffffffffffffff

/-- The number that a run of digits stands for. -/
def numberOf (digits : List Char) : Nat :=
  if digits.isEmpty then maxNumber
  else min maxNumber (digits.foldl (fun n c ↦ n * 10 + (c.toNat - '0'.toNat)) 0)

def ofKey (key : String) : NaturalKey :=
  let backwards := key.toList.reverse
  ⟨String.ofList (backwards.dropWhile Char.isDigit).reverse,
    numberOf (backwards.takeWhile Char.isDigit).reverse, key⟩

/-- By the stem, then by the number, then by the whole key. -/
instance : Ord NaturalKey :=
  ⟨compareLex (compareOn stem) (compareLex (compareOn number) (compareOn whole))⟩

instance : Std.TransOrd NaturalKey :=
  inferInstanceAs (Std.TransCmp
    (compareLex (compareOn stem) (compareLex (compareOn number) (compareOn whole))))

end NaturalKey

end Silhouette
