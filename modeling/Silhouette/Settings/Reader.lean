import Silhouette.Json.Token
import Silhouette.Settings.Basic

/-!
# Reading settings

`Settings.parse` reads the first value of a text as settings: an object with the known fields, or a
list of six values in the order of the fields.  Null leaves out a field, except for the literals,
which have to be an object from keys to texts.  Text behind the first value is not looked at.

The reader takes the tokens one at a time, and reports the first thing that is wrong, with the part
of the settings it belongs to and its place.  Where a value has the wrong type, the place is behind
the value, or in front of a list or an object.  Where the **fields** are wrong — one is unknown, one
comes twice — the complaint is placed only after the blanks that follow have been passed, and behind
the brace that ends the object if that comes next; that is what `Stage.refused` waits for.
-/

set_option autoImplicit false

namespace Silhouette.Settings

open Json (Token Lexeme Fault)

/-- A complaint: the part of the settings, what is wrong with it, and how many bytes lie before. -/
structure Complaint where
  path : List Step
  cause : Cause
  offset : Nat

/-! ## Single values -/

/-- What is said of a token where a value of another type was expected. -/
def mismatch (expected : Expected) (t : Token) : Cause × Nat :=
  match t.lexeme with
  | .null => (.wrongType .null expected, t.stop)
  | .bool b => (.wrongType (.bool b) expected, t.stop)
  | .number n => (.wrongType (.number n) expected, t.stop)
  | .string s => (.wrongType (.string s) expected, t.stop)
  | .openBracket => (.wrongType .list expected, t.start)
  | .openBrace => (.wrongType .object expected, t.start)
  | .broken _ fault => (.syntaxFault fault.cause, fault.offset)
  | _ => (.syntaxFault .expectedValue, t.start + 1)

def readText (t : Token) : Except (Cause × Nat) String :=
  match t.lexeme with
  | .string s => .ok s
  | _ => .error (mismatch .text t)

def readBool (t : Token) : Except (Cause × Nat) Bool :=
  match t.lexeme with
  | .bool b => .ok b
  | _ => .error (mismatch .boolean t)

def readSize (t : Token) : Except (Cause × Nat) Nat :=
  match t.lexeme with
  | .number (.whole n) => if n < 0 then .error (.negative n, t.stop) else .ok n.toNat
  | _ => .error (mismatch .size t)

/-- A value that may be left out. -/
def readOptional {α : Type} (read : Token → Except (Cause × Nat) α) (t : Token) :
    Except (Cause × Nat) (Option α) :=
  match t.lexeme with
  | .null => .ok none
  | _ => (read t).map some

/-! ## The machine -/

/-- Whether the settings are written as an object or as a list. -/
inductive Outer where
  | object
  | list
deriving DecidableEq

/-- What the reader waits for. -/
inductive Stage where
  /-- The settings. -/
  | start
  /-- A field, or the end of the object if there was none yet. -/
  | field (first : Bool)
  /-- The colon behind the name of a field. -/
  | colon (key : Key)
  /-- The value of a field. -/
  | value (key : Key)
  /-- A comma or the end of the object. -/
  | fieldEnd
  /-- The value number `index` of the list, or the end of the list if nothing came before. -/
  | item (index : Nat) (first : Bool)
  /-- A comma or the end of the list, behind `count` values. -/
  | itemEnd (count : Nat)
  /-- A key of the literals, or their end if there was none yet. -/
  | literal (outer : Outer) (first : Bool)
  /-- The colon behind a key of the literals. -/
  | literalColon (outer : Outer) (key : String)
  /-- The text for a key of the literals. -/
  | literalText (outer : Outer) (key : String)
  /-- A comma or the end of the literals. -/
  | literalEnd (outer : Outer)
  /-- The place of a complaint about the fields. -/
  | refused (path : List Step) (cause : Cause)
  /-- Nothing more. -/
  | finished

/-- What has been read so far. -/
structure Progress where
  stage : Stage
  settings : Settings := {}
  /-- The fields met so far. -/
  met : List Key := []

/-- How the literals are referred to. -/
def literalsPath : Outer → List Step
  | .object => [.name Key.literals.name]
  | .list => [.index 4]

/-- Where reading goes on behind the literals. -/
def afterLiterals : Outer → Stage
  | .object => .fieldEnd
  | .list => .itemEnd 5

/-- A complaint about the first character of a token. -/
def complain {α : Type} (path : List Step) (cause : Fault.Cause) (t : Token) :
    Except Complaint α :=
  .error ⟨path, .syntaxFault cause, t.start + 1⟩

/-- A token where a key has to come. -/
def badKey {α : Type} (path : List Step) (t : Token) : Except Complaint α :=
  match t.lexeme with
  | .broken true fault => .error ⟨path, .syntaxFault fault.cause, fault.offset⟩
  | _ => complain path .keyMustBeString t

/-- Take the value of a field; `path` is the way to it and `next` the stage behind it. -/
def takeValue (p : Progress) (path : List Step) (outer : Outer) (next : Stage) (key : Key)
    (t : Token) : Except Complaint Progress :=
  let placed {α : Type} (x : Except (Cause × Nat) α) : Except Complaint α :=
    x.mapError fun (cause, offset) ↦ ⟨path, cause, offset⟩
  let s := p.settings
  match key with
  | .rootName => do
    let v ← placed (readOptional readText t)
    return { p with stage := next, settings := { s with rootName := v } }
  | .useTypeAlias => do
    let v ← placed (readOptional readBool t)
    return { p with stage := next, settings := { s with useTypeAlias := v } }
  | .rootAsTuple => do
    let v ← placed (readOptional readBool t)
    return { p with stage := next, settings := { s with rootAsTuple := v } }
  | .maxDepth => do
    let v ← placed (readOptional readSize t)
    return { p with stage := next, settings := { s with maxDepth := v } }
  | .bottom => do
    let v ← placed (readOptional readText t)
    return { p with stage := next, settings := { s with bottom := v } }
  | .literals =>
    match t.lexeme with
    | .openBrace => .ok { p with stage := .literal outer true }
    | _ => placed (.error (mismatch .table t))

/-- Take a token where the name of a field has to come. -/
def takeField (p : Progress) (t : Token) : Except Complaint Progress :=
  match t.lexeme with
  | .string name =>
    match Key.ofName? name with
    | none => .ok { p with stage := .refused [.name name] (.unknownField name) }
    | some key =>
      if key ∈ p.met then .ok { p with stage := .refused [] (.duplicateField name) }
      else .ok { p with stage := .colon key, met := key :: p.met }
  | _ => badKey [.unknown] t

/-- How many values a list with its end at `index` lacks the last of.  The literals may be missing,
so after four values it is the sixth that is asked for. -/
def lackingAt (index : Nat) : Nat := if index = 4 then 5 else index

/-- Take a token where a value of the list has to come. -/
def takeItem (p : Progress) (index : Nat) (first : Bool) (t : Token) : Except Complaint Progress :=
  match t.lexeme, first, Key.all[index]? with
  | .closeBracket, true, _ => .error ⟨[], .wrongLength (lackingAt index), t.stop⟩
  | .closeBracket, false, _ => complain [] .trailingComma t
  | _, _, some key => takeValue p [.index index] .list (.itemEnd (index + 1)) key t
  | _, _, none => complain [] .trailingCharacters t

/-- Take a token behind a value of the list. -/
def takeItemEnd (p : Progress) (count : Nat) (t : Token) : Except Complaint Progress :=
  match t.lexeme with
  | .closeBracket =>
    if count < Key.all.length then .error ⟨[], .wrongLength (lackingAt count), t.stop⟩
    else .ok { p with stage := .finished }
  | .comma => .ok { p with stage := .item count false }
  | _ =>
    complain [] (if count < Key.all.length then .expectedListCommaOrEnd else .trailingCharacters) t

/-- Take a token where a key of the literals has to come. -/
def takeLiteralKey (p : Progress) (outer : Outer) (t : Token) : Except Complaint Progress :=
  match t.lexeme with
  | .string key => .ok { p with stage := .literalColon outer key }
  | _ => badKey (literalsPath outer ++ [.unknown]) t

/-- One step of the reader. -/
def step (p : Progress) (t : Token) : Except Complaint Progress :=
  match p.stage with
  | .start =>
    match t.lexeme with
    | .openBrace => .ok { p with stage := .field true }
    | .openBracket => .ok { p with stage := .item 0 true }
    | _ =>
      let (cause, offset) := mismatch .settings t
      .error ⟨[], cause, offset⟩
  | .field first =>
    match t.lexeme, first with
    | .closeBrace, true => .ok { p with stage := .finished }
    | .closeBrace, false => complain [.unknown] .trailingComma t
    | _, _ => takeField p t
  | .colon key =>
    match t.lexeme with
    | .colon => .ok { p with stage := .value key }
    | _ => complain [] .expectedColon t
  | .value key => takeValue p [.name key.name] .object .fieldEnd key t
  | .fieldEnd =>
    match t.lexeme with
    | .comma => .ok { p with stage := .field false }
    | .closeBrace => .ok { p with stage := .finished }
    | _ => complain [.unknown] .expectedObjectCommaOrEnd t
  | .item index first => takeItem p index first t
  | .itemEnd count => takeItemEnd p count t
  | .literal outer first =>
    match t.lexeme, first with
    | .closeBrace, true => .ok { p with stage := afterLiterals outer }
    | .closeBrace, false => complain (literalsPath outer ++ [.unknown]) .trailingComma t
    | _, _ => takeLiteralKey p outer t
  | .literalColon outer key =>
    match t.lexeme with
    | .colon => .ok { p with stage := .literalText outer key }
    | _ => complain (literalsPath outer) .expectedColon t
  | .literalText outer key =>
    match readText t with
    | .ok literal =>
      let literals := p.settings.literals.insert (key, literal)
      .ok { p with stage := .literalEnd outer, settings := { p.settings with literals } }
    | .error (cause, offset) => .error ⟨literalsPath outer ++ [.name key], cause, offset⟩
  | .literalEnd outer =>
    match t.lexeme with
    | .comma => .ok { p with stage := .literal outer false }
    | .closeBrace => .ok { p with stage := afterLiterals outer }
    | _ => complain (literalsPath outer ++ [.unknown]) .expectedObjectCommaOrEnd t
  | .refused path cause =>
    .error ⟨path, cause, if t.lexeme = .closeBrace then t.stop else t.start⟩
  | .finished => .ok p

/-- What is said at the end of the text. -/
def close : Stage → Option (List Step × Cause)
  | .start => some ([], .syntaxFault .endInValue)
  | .field true => some ([.unknown], .syntaxFault .endInObject)
  | .field false => some ([.unknown], .syntaxFault .endInValue)
  | .colon _ => some ([], .syntaxFault .endInObject)
  | .value key => some ([.name key.name], .syntaxFault .endInValue)
  | .fieldEnd => some ([.unknown], .syntaxFault .endInObject)
  | .item index first =>
    if first then some ([], .syntaxFault .endInList)
    else if index < Key.all.length then some ([], .syntaxFault .endInValue)
    else some ([], .syntaxFault .trailingCharacters)
  | .itemEnd _ => some ([], .syntaxFault .endInList)
  | .literal outer true => some (literalsPath outer ++ [.unknown], .syntaxFault .endInObject)
  | .literal outer false => some (literalsPath outer ++ [.unknown], .syntaxFault .endInValue)
  | .literalColon outer _ => some (literalsPath outer, .syntaxFault .endInObject)
  | .literalText outer key => some (literalsPath outer ++ [.name key], .syntaxFault .endInValue)
  | .literalEnd outer => some (literalsPath outer ++ [.unknown], .syntaxFault .endInObject)
  | .refused path cause => some (path, cause)
  | .finished => none

/-- Read all tokens of a text. -/
def read (tokens : List Token) (stop : Nat) : Except Complaint Settings := do
  let p ← tokens.foldlM step { stage := .start }
  match close p.stage with
  | none => return p.settings
  | some (path, cause) => throw ⟨path, cause, stop⟩

/-- Read settings from the text of a settings file. -/
def parse (text : String) : Except SettingsError Settings :=
  (read (Json.tokens text) (Text.byteLength text.toList)).mapError fun c ↦
    .malformed c.path c.cause (Json.Position.locate text c.offset)

end Silhouette.Settings
