import Silhouette.Text.Utf8

/-!
# Universally unique identifiers

A uuid is 32 hexadecimal digits, or the same in groups of 8, 4, 4, 4 and 12 with hyphens between
them, and the grouped form may stand in braces or behind `urn:uuid:`.  `Uuid.isUuid` is that rule.

`Uuid.check` also says what is wrong with a text that is none.  It takes the text for the form it
resembles most and looks for a character that does not belong there, then at the number of groups,
then at their lengths.  Lengths and places count bytes.
-/

set_option autoImplicit false

namespace Silhouette.Uuid

/-- Why a text is no uuid. -/
inductive Fault where
  | badCharacter (found : Char) (place : Nat)
  | badLength (found : Nat)
  | badGroupCount (found : Nat)
  | badGroupLength (group expected found : Nat)
deriving DecidableEq, Repr

def Fault.message : Fault → String
  | badCharacter c place =>
    "invalid character: found `" ++ c.toString ++ "` at " ++ toString place
  | badLength n => "invalid length: found " ++ toString n
  | badGroupCount n => "invalid group count: expected 5, found " ++ toString n
  | badGroupLength group expected found =>
    "invalid group length in group " ++ toString group ++ ": expected " ++ toString expected ++
      ", found " ++ toString found

def isHex (c : Char) : Bool := c.isDigit || ('a' ≤ c && c ≤ 'f') || ('A' ≤ c && c ≤ 'F')

/-! ## The accepted forms -/

/-- 32 digits without hyphens. -/
def isPlain (cs : List Char) : Bool := cs.length == 32 && cs.all isHex

/-- Whether a character may stand at a place of the grouped form. -/
def fitsAt (place : Nat) (c : Char) : Bool :=
  if place = 8 ∨ place = 13 ∨ place = 18 ∨ place = 23 then c == '-' else isHex c

def allFit : (place : Nat) → List Char → Bool
  | _, [] => true
  | place, c :: rest => fitsAt place c && allFit (place + 1) rest

/-- Five groups of digits. -/
def isGrouped (cs : List Char) : Bool := cs.length == 36 && allFit 0 cs

/-- What stands between braces. -/
def inBraces? : List Char → Option (List Char)
  | '\x7b' :: rest => if rest.getLast? = some '\x7d' then some rest.dropLast else none
  | _ => none

/-- What stands behind `urn:uuid:`, in whatever case that is written. -/
def behindUrn? (cs : List Char) : Option (List Char) :=
  if (cs.take 9).map Char.toLower = "urn:uuid:".toList then some (cs.drop 9) else none

/-- The text inside the braces or behind the name of its form, if it has one of the two. -/
def inner (cs : List Char) : List Char := ((inBraces? cs).or (behindUrn? cs)).getD cs

/-- Whether a text is a uuid. -/
def isUuid (s : String) : Bool :=
  let cs := s.toList
  isPlain cs || isGrouped cs || (inBraces? cs).any isGrouped || (behindUrn? cs).any isGrouped

/-! ## What is wrong with the others -/

/-- The first character that is neither a digit nor a hyphen, and its place. -/
def findStray (place : Nat) : List Char → Option Fault
  | [] => none
  | c :: rest =>
    if isHex c || c == '-' then findStray (place + c.utf8Size) rest
    else some (.badCharacter c place)

/-- The places of the hyphens. -/
def hyphens (place : Nat) : List Char → List Nat
  | [] => []
  | c :: rest =>
    if c = '-' then place :: hyphens (place + 1) rest else hyphens (place + c.utf8Size) rest

/-- The first group of the wrong length; `bytes` is the length of the text as a whole. -/
def groupFault (bytes : Nat) (places : List Nat) : Fault :=
  let rec wrongGroup : (group start : Nat) → (lengths places : List Nat) → Option Fault
    | group, start, length :: lengths, place :: places =>
      if place = start + length then wrongGroup (group + 1) (place + 1) lengths places
      else some (.badGroupLength group length (place - start))
    | _, _, _, _ => none
  if places.length ≠ 4 then .badGroupCount (places.length + 1)
  else (wrongGroup 0 0 [8, 4, 4, 4] places).getD (.badGroupLength 4 12 (bytes - 24))

/-- What is wrong with a text that is taken for grouped: its characters start at `base` and the text
as a whole has `bytes` bytes. -/
def groupedFault (base bytes : Nat) (cs : List Char) : Fault :=
  (findStray base cs).getD (groupFault bytes (hyphens 0 cs))

/-- What is wrong with a text that has no form yet. -/
def plainFault (bytes : Nat) (cs : List Char) : Fault :=
  (findStray 0 cs).getD
    (if cs.contains '-' then groupFault bytes (hyphens 0 cs) else .badLength bytes)

/-- What is wrong with a text that is no uuid. -/
def fault (s : String) : Fault :=
  let cs := s.toList
  let bytes := Text.byteLength cs
  let braced := inBraces? cs
  let urn := behindUrn? cs
  if bytes = 36 then groupedFault 0 36 cs
  else if bytes = 38 ∧ braced.isSome then groupedFault 0 36 (inner cs)
  else if bytes = 45 ∧ urn.isSome then groupedFault 0 36 (inner cs)
  else if bytes = 0 ∨ 45 < bytes then .badLength bytes
  else
    match braced, urn with
    | some cs, _ => groupedFault 1 bytes cs
    | none, some cs => groupedFault 9 bytes cs
    | none, none => plainFault bytes cs

/-- Whether a text is a uuid, and if not, why. -/
def check (s : String) : Except Fault Unit := if isUuid s then .ok () else .error (fault s)

end Silhouette.Uuid
