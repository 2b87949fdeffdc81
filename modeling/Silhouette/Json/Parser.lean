import Silhouette.Json.Basic
import Silhouette.Json.Token

/-!
# From tokens to a value

`Json.parse` reads a whole text as one value.  The grammar is a machine that takes the tokens one
at a time: its state says what has to come next and where the value under construction is to be
put, a `Frame` for each list or object that is still open.  Since the machine only ever looks at
the token before it, the first fault in reading order is the one that is reported.

Lists and objects may be nested 127 deep.
-/

set_option autoImplicit false

namespace Silhouette.Json

/-- A list or an object that is still open, at the place where the next value goes. -/
inductive Frame where
  /-- Behind the elements so far, which are held backwards. -/
  | list (items : List Json)
  /-- Under a key, behind the members so far. -/
  | entry (members : List (String × Json)) (name : String)

/-- What comes just before a value. -/
inductive Lead where
  | bracket
  | comma
  | other
deriving DecidableEq

/-- What the machine waits for; `frames` are the open lists and objects, the innermost first. -/
inductive State where
  /-- A value that goes into the innermost frame. -/
  | value (frames : List Frame) (lead : Lead)
  /-- A key, or the end of the object if there is none yet. -/
  | key (frames : List Frame) (members : List (String × Json)) (first : Bool)
  /-- The colon behind a key. -/
  | colon (frames : List Frame) (members : List (String × Json)) (name : String)
  /-- A comma or the end of a list. -/
  | listEnd (frames : List Frame) (items : List Json)
  /-- A comma or the end of an object. -/
  | objectEnd (frames : List Frame) (members : List (String × Json))
  /-- Nothing more. -/
  | finished (value : Json)

namespace State

/-- How many lists and objects may be open. -/
def maxNesting : Nat := 127

/-- Put a finished value where it belongs. -/
def place : List Frame → Json → State
  | [], v => .finished v
  | .list items :: frames, v => .listEnd frames (v :: items)
  | .entry members name :: frames, v => .objectEnd frames (put members name v)

/-- A fault on the first character of a token. -/
def complain (cause : Fault.Cause) (t : Token) : Except Fault State := .error ⟨cause, t.start + 1⟩

/-- A token where a value has to come. -/
def takeValue (frames : List Frame) (lead : Lead) (t : Token) : Except Fault State :=
  match t.lexeme with
  | .null => .ok (place frames .null)
  | .bool b => .ok (place frames (.bool b))
  | .number n => .ok (place frames (.number n))
  | .string s => .ok (place frames (.string s))
  | .openBracket =>
    if frames.length < maxNesting then .ok (.value (.list [] :: frames) .bracket)
    else complain .tooDeep t
  | .openBrace =>
    if frames.length < maxNesting then .ok (.key frames [] true) else complain .tooDeep t
  | .closeBracket =>
    match lead, frames with
    | .bracket, .list items :: frames => .ok (place frames (.array items.reverse))
    | .comma, _ => complain .trailingComma t
    | _, _ => complain .expectedValue t
  | .broken _ fault => .error fault
  | _ => complain .expectedValue t

/-- One step of the machine. -/
def step : State → Token → Except Fault State
  | .value frames lead, t => takeValue frames lead t
  | .key frames members first, t =>
    match t.lexeme with
    | .string name => .ok (.colon frames members name)
    | .closeBrace =>
      if first then .ok (place frames (.object members)) else complain .trailingComma t
    | .broken true fault => .error fault
    | _ => complain .keyMustBeString t
  | .colon frames members name, t =>
    match t.lexeme with
    | .colon => .ok (.value (.entry members name :: frames) .other)
    | _ => complain .expectedColon t
  | .listEnd frames items, t =>
    match t.lexeme with
    | .comma => .ok (.value (.list items :: frames) .comma)
    | .closeBracket => .ok (place frames (.array items.reverse))
    | _ => complain .expectedListCommaOrEnd t
  | .objectEnd frames members, t =>
    match t.lexeme with
    | .comma => .ok (.key frames members false)
    | .closeBrace => .ok (place frames (.object members))
    | _ => complain .expectedObjectCommaOrEnd t
  | .finished _, t => complain .trailingCharacters t

/-- The end of the text. -/
def close : State → Except Fault.Cause Json
  | .value _ .bracket => .error .endInList
  | .value _ _ => .error .endInValue
  | .key _ _ true => .error .endInObject
  | .key _ _ false => .error .endInValue
  | .colon _ _ _ => .error .endInObject
  | .listEnd _ _ => .error .endInList
  | .objectEnd _ _ => .error .endInObject
  | .finished v => .ok v

end State

/-- Read a whole text as one value. -/
def parse (text : String) : Except Fault Json := do
  let state ← (tokens text).foldlM State.step (.value [] .other)
  match state.close with
  | .ok v => return v
  | .error cause => throw ⟨cause, Text.byteLength text.toList⟩

end Silhouette.Json
