import Silhouette.Files.PathText

/-!
# File patterns

A pattern is a path in which `?` stands for one character, `*` for any number of them, `[abc]`,
`[a-z]` and `[!a-z]` for one character of a class or outside of it.  `**` must be a piece of its own
and stands for any number of directories.

`Glob.parse` reads a pattern.  The whole of it is looked at first, then its pieces one by one, and
the first fault decides; a class that holds a slash is therefore noticed in the piece it starts in.
`Glob.Component.fits` says which names a piece stands for; where matching names are found is for
`Silhouette.Files.Glob.Expansion`.
-/

set_option autoImplicit false

namespace Silhouette.Glob

/-! ## Faults -/

inductive Cause where
  /-- More than two stars. -/
  | stars
  /-- Two stars that are not a piece of their own. -/
  | notAlone
  /-- A class that does not end. -/
  | openClass
deriving DecidableEq, Repr

def Cause.message : Cause → String
  | stars => "wildcards are either regular `*` or recursive `**`"
  | notAlone => "recursive wildcards must form a single path component"
  | openClass => "invalid range pattern"

/-- What is wrong with a pattern, and at which character. -/
structure Fault where
  cause : Cause
  place : Nat
deriving DecidableEq, Repr

def Fault.message (fault : Fault) : String :=
  "Pattern syntax error near position " ++ toString fault.place ++ ": " ++ fault.cause.message

/-! ## The parts of a pattern -/

/-- A range of characters, both ends included. -/
structure Range where
  first : Char
  last : Char
deriving DecidableEq, Repr

def Range.contains (r : Range) (c : Char) : Bool := r.first ≤ c && c ≤ r.last

inductive Part where
  | char (c : Char)
  | anyChar
  | oneOf (ranges : List Range)
  | noneOf (ranges : List Range)
  | anyText
  /-- Any number of directories. -/
  | anyDirectories
deriving DecidableEq, Repr

/-- Whether a part that stands for one character stands for `c`. -/
def Part.accepts (c : Char) : Part → Bool
  | char d => c = d
  | anyChar => true
  | oneOf ranges => ranges.any fun r ↦ r.contains c
  | noneOf ranges => !ranges.any fun r ↦ r.contains c
  | anyText => false
  | anyDirectories => false

/-- Whether a part stands for any number of characters. -/
def Part.isRun : Part → Bool
  | anyText | anyDirectories => true
  | _ => false

/-- The one character that a part stands for, if it is no wildcard. -/
def Part.literal? : Part → Option Char
  | char c => some c
  | _ => none

/-- The ranges in a class. -/
def ranges : List Char → List Range
  | a :: '-' :: b :: rest => ⟨a, b⟩ :: ranges rest
  | a :: rest => ⟨a, a⟩ :: ranges rest
  | [] => []

/-- A class whose first character is `first`, up to the bracket that ends it, and its length with
that bracket.  A bracket in first place belongs to the class. -/
def readClass? (first : Char) (rest : List Char) : Option (List Range × Nat) :=
  if rest.contains ']' then
    let more := rest.takeWhile (· ≠ ']')
    some (ranges (first :: more), more.length + 2)
  else none

/-- The part that starts with the character `c` at a place, and how many further characters it
takes.  Two stars take the slash behind them. -/
def readPart (place : Nat) (before : Option Char) (c : Char) (rest : List Char) :
    Except Fault (Part × Nat) :=
  match c with
  | '?' => .ok (.anyChar, 0)
  | '*' =>
    match rest.takeWhile (· = '*') |>.length with
    | 0 => .ok (.anyText, 0)
    | 1 =>
      if before.any (· ≠ '/') then .error ⟨.notAlone, place - 1⟩
      else
        match rest.tail with
        | [] => .ok (.anyDirectories, 1)
        | '/' :: _ => .ok (.anyDirectories, 2)
        | _ => .error ⟨.notAlone, place + 2⟩
    | _ => .error ⟨.stars, place + 2⟩
  | '[' =>
    let found := match rest with
      | '!' :: first :: rest => (readClass? first rest).map fun r ↦ (Part.noneOf r.1, r.2 + 1)
      | '!' :: [] => none
      | first :: rest => (readClass? first rest).map fun r ↦ (Part.oneOf r.1, r.2)
      | [] => none
    match found with
    | some found => .ok found
    | none => .error ⟨.openClass, place⟩
  | c => .ok (.char c, 0)

/-- The parts of a text from a place on, after `skip` characters of a part that was read. -/
def readParts (skip place : Nat) (before : Option Char) : List Char → Except Fault (List Part)
  | [] => .ok []
  | c :: rest =>
    match skip with
    | skip + 1 => readParts skip (place + 1) (some c) rest
    | 0 => do
      let (part, more) ← readPart place before c rest
      return part :: (← readParts more (place + 1) (some c) rest)

/-! ## Patterns -/

/-- A piece of a pattern. -/
abbrev Component := List Part

/-- How a piece goes with a text. -/
inductive Verdict where
  /-- The piece stands for the text. -/
  | fits
  /-- The text has something else, or more. -/
  | differs
  /-- The text ends before the piece does. -/
  | runsOut
deriving DecidableEq, Repr

/-- The verdict on what is left of a list, from the first place on where it is not that something
differs. -/
def firstSettled (p : List Char → Verdict) : List Char → Verdict
  | [] => p []
  | c :: rest =>
    match p (c :: rest) with
    | .differs => firstSettled p rest
    | verdict => verdict

/-- The place where the verdict falls: before it everything differs, and so does the end if there is
no such place. -/
theorem exists_suffix_firstSettled (p : List Char → Verdict) (cs : List Char) :
    ∃ d, d <:+ cs ∧ p d = firstSettled p cs ∧ (p d = .differs → d = []) ∧
      ∀ e, e <:+ cs → p e = .differs ∨ e <:+ d := by
  induction cs with
  | nil => exact ⟨[], List.suffix_refl _, rfl, fun _ ↦ rfl, fun _ he ↦ .inr he⟩
  | cons c cs ih =>
    rw [firstSettled]
    split
    next hc =>
      obtain ⟨d, hd, hp, hn, he⟩ := ih
      refine ⟨d, hd.trans (List.suffix_cons c cs), hp, hn, fun e h ↦ ?_⟩
      rcases List.suffix_cons_iff.1 h with rfl | h
      · exact .inl hc
      · exact he e h
    next hc =>
      exact ⟨c :: cs, List.suffix_refl _, rfl, fun h ↦ absurd h hc, fun _ he ↦ .inr he⟩

namespace Component

/-- Hold a piece against a text.  A star takes as little as it can: the parts behind it, up to the
next star, are met at the first place where they occur, which leaves the most text to what follows.
If the text runs out from there, no later place leaves enough of it, so none of those is tried; the
time a piece takes is bounded by its length times that of the text. -/
def judge : Component → List Char → Verdict
  | [], cs => if cs.isEmpty then .fits else .differs
  | part :: parts, cs =>
    if part.isRun then firstSettled (judge parts) cs
    else
      match cs with
      | [] => .runsOut
      | c :: cs => if part.accepts c then judge parts cs else .differs

theorem judge_run {part : Part} (h : part.isRun = true) (parts : Component) (cs : List Char) :
    judge (part :: parts) cs = firstSettled (judge parts) cs := by
  simp [judge, h]

theorem judge_cons_nil {part : Part} (h : part.isRun = false) (parts : Component) :
    judge (part :: parts) [] = .runsOut := by
  simp [judge, h]

theorem judge_cons_cons {part : Part} (h : part.isRun = false) (parts : Component) (c : Char)
    (cs : List Char) :
    judge (part :: parts) (c :: cs) = if part.accepts c then judge parts cs else .differs := by
  simp [judge, h]

/-- Once a text has run out, no end of it is what the piece stands for. -/
theorem judge_ne_fits_of_runsOut {parts : Component} {cs d : List Char}
    (h : judge parts cs = .runsOut) (hd : d <:+ cs) : judge parts d ≠ .fits := by
  intro hf
  induction parts generalizing cs d with
  | nil => cases cs <;> simp [judge] at h
  | cons part parts ih =>
    cases hr : part.isRun with
    | true =>
      rw [judge_run hr] at h hf
      obtain ⟨s, -, hs, -, hmax⟩ := exists_suffix_firstSettled (judge parts) cs
      obtain ⟨e, he, hef, -, -⟩ := exists_suffix_firstSettled (judge parts) d
      rw [hf] at hef
      rcases hmax e (he.trans hd) with hdiff | hes
      · simp [hef] at hdiff
      · exact ih (hs.trans h) hes hef
    | false =>
      match cs, d with
      | _, [] => simp [judge_cons_nil hr] at hf
      | [], _ :: _ => simp at hd
      | c :: cs, c' :: d =>
        have hd : d <:+ cs := by
          rcases List.suffix_cons_iff.1 hd with hd | hd
          · exact (List.cons.inj hd).2 ▸ List.suffix_refl _
          · exact (List.suffix_cons c' d).trans hd
        rw [judge_cons_cons hr] at h hf
        cases hc : part.accepts c with
        | false => simp [hc] at h
        | true =>
          cases hc' : part.accepts c' with
          | false => simp [hc'] at hf
          | true =>
            rw [hc, if_pos rfl] at h
            rw [hc', if_pos rfl] at hf
            exact ih h hd hf

/-- Whether a piece stands for a text. -/
def fits (component : Component) (cs : List Char) : Bool := component.judge cs = .fits

@[simp]
theorem fits_nil (cs : List Char) : fits [] cs = cs.isEmpty := by
  cases cs <;> rfl

/-- A part that stands for one character. -/
theorem fits_cons {part : Part} (h : part.isRun = false) (parts : Component) (c : Char)
    (cs : List Char) : fits (part :: parts) (c :: cs) = (part.accepts c && fits parts cs) := by
  cases hc : part.accepts c <;> simp [fits, judge_cons_cons h, hc]

/-- A star stands for any text. -/
theorem fits_run {part : Part} (h : part.isRun = true) {parts : Component} {cs : List Char} :
    fits (part :: parts) cs = true ↔ ∃ d, d <:+ cs ∧ fits parts d = true := by
  simp only [fits, judge_run h, decide_eq_true_eq]
  obtain ⟨s, hs, hv, hend, hmax⟩ := exists_suffix_firstSettled (judge parts) cs
  rw [← hv]
  refine ⟨fun hf ↦ ⟨s, hs, hf⟩, fun ⟨d, hd, hf⟩ ↦ ?_⟩
  have hds : d <:+ s := (hmax d hd).resolve_left (by simp [hf])
  cases hj : judge parts s with
  | fits => rfl
  | differs =>
    cases hend hj
    rw [List.suffix_nil.1 hds, hj] at hf
    exact hf
  | runsOut => exact absurd hf (judge_ne_fits_of_runsOut hj hds)

/-- Whether a piece stands for any number of directories. -/
def isDirectories (c : Component) : Bool := c = [.anyDirectories]

/-- The one text that a piece without wildcards stands for. -/
def literal? (c : Component) : Option String :=
  (c.mapM Part.literal?).map String.ofList

/-- What a piece stands for besides names: only one that starts with a dot stands for the directory
itself and the one above. -/
def dots (c : Component) : List String :=
  if c.head? = some (.char '.') then ["..", "."].filter fun name ↦ c.fits name.toList else []

end Component

end Glob

/-- A pattern for paths. -/
structure Glob where
  components : List Glob.Component
  isAbsolute : Bool
  /-- The pattern ends in a slash. -/
  directoriesOnly : Bool
deriving DecidableEq, Repr

namespace Glob

/-- Whether a text is a pattern and not just a path. -/
def isPattern (text : String) : Bool := text.toList.any fun c ↦ c = '*' || c = '?' || c = '['

/-- The pieces of a pattern; the slash at its start and the one at its end separate nothing. -/
def componentTexts (pattern : String) : List String :=
  let pieces := PathText.pieces pattern
  let pieces := if PathText.isAbsolute pattern then pieces.tail else pieces
  if pieces.getLast? = some "" then pieces.dropLast else pieces

/-- Read a pattern. -/
def parse (pattern : String) : Except Fault Glob := do
  let _ ← readParts 0 0 none pattern.toList
  let components ← (componentTexts pattern).mapM fun text ↦ readParts 0 0 none text.toList
  return ⟨components, PathText.isAbsolute pattern, pattern.toList.getLast? = some '/'⟩

end Glob

end Silhouette
