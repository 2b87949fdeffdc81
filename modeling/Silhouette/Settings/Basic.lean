import Silhouette.Declaration.Literals
import Silhouette.Inference.Observe
import Silhouette.Json.Fault
import Silhouette.Text.Shown

/-!
# Settings

`Settings` is what a settings file says; everything in it is optional.  The literals are kept under
the keys they were given, in order of the keys, and looked at only when `emitOptions` makes options
of them, so an unknown kind is noticed late and the smallest unknown key is the one reported.

`SettingsError` is what can be wrong with a settings file: it cannot be read, its text does not have
the right form, or it names an unknown kind.
-/

set_option autoImplicit false

namespace Silhouette

/-- Literals by the keys they were given. -/
abbrev LiteralTable := Ordered fun (entry : String × String) ↦ entry.1

/-- What a settings file says. -/
structure Settings where
  rootName : Option String := none
  useTypeAlias : Option Bool := none
  rootAsTuple : Option Bool := none
  maxDepth : Option Nat := none
  literals : LiteralTable := ∅
  bottom : Option String := none

/-! ## Errors -/

namespace Settings

/-- One step to a part of a settings file. -/
inductive Step where
  | name (key : String)
  | index (n : Nat)
  /-- A key that could not be read. -/
  | unknown
deriving DecidableEq, Repr

/-- A step behind others, or at the start. -/
def Step.text (atStart : Bool) : Step → String
  | name key => if atStart then key else "." ++ key
  | index n => "[" ++ toString n ++ "]"
  | unknown => if atStart then "?" else ".?"

/-- A place in a settings file, from the outside in. -/
def pathText : List Step → String
  | [] => "."
  | s :: rest => s.text true ++ String.join (rest.map (Step.text false))

/-- What a part of a settings file should have been. -/
inductive Expected where
  | text
  | boolean
  | size
  | table
  | settings
deriving DecidableEq, Repr

def Expected.describe : Expected → String
  | text => "a string"
  | boolean => "a boolean"
  | size => "usize"
  | table => "a map"
  | settings => "struct Settings"

/-- What was there instead. -/
inductive Found where
  | null
  | bool (value : Bool)
  | number (value : Json.Numeral)
  | string (value : String)
  | list
  | object
deriving DecidableEq, Repr

def Found.describe : Found → String
  | null => "null"
  | bool b => "boolean `" ++ (if b then "true" else "false") ++ "`"
  | number (.whole n) => "integer `" ++ toString n ++ "`"
  | number n => "floating point `" ++ n.text ++ "`"
  | string s => "string " ++ Text.shown s
  | list => "sequence"
  | object => "map"

/-- The fields that a settings file may have. -/
inductive Key where
  | rootName
  | useTypeAlias
  | rootAsTuple
  | maxDepth
  | literals
  | bottom
deriving DecidableEq, Repr

namespace Key

/-- All fields, in order. -/
def all : List Key := [rootName, useTypeAlias, rootAsTuple, maxDepth, literals, bottom]

def name : Key → String
  | rootName => "rootName"
  | useTypeAlias => "useTypeAlias"
  | rootAsTuple => "rootAsTuple"
  | maxDepth => "maxDepth"
  | literals => "literals"
  | bottom => "bottom"

/-- The field with a given name. -/
def ofName? (s : String) : Option Key := all.find? fun k ↦ k.name == s

end Key

/-- What is wrong with the form of a settings file. -/
inductive Cause where
  | syntaxFault (cause : Json.Fault.Cause)
  | wrongType (found : Found) (expected : Expected)
  | negative (value : Int)
  | unknownField (name : String)
  | duplicateField (name : String)
  | wrongLength (found : Nat)
deriving DecidableEq, Repr

def Cause.message : Cause → String
  | syntaxFault cause => cause.message
  | wrongType found expected =>
    "invalid type: " ++ found.describe ++ ", expected " ++ expected.describe
  | negative n =>
    "invalid value: integer `" ++ toString n ++ "`, expected " ++ Expected.size.describe
  | unknownField name =>
    "unknown field `" ++ name ++ "`, expected one of " ++
      ", ".intercalate (Key.all.map fun k ↦ "`" ++ k.name ++ "`")
  | duplicateField name => "duplicate field `" ++ name ++ "`"
  | wrongLength n =>
    "invalid length " ++ toString n ++ ", expected " ++ Expected.settings.describe ++ " with " ++
      toString Key.all.length ++ " elements"

end Settings

/-- Why there are no settings. -/
inductive SettingsError where
  | malformed (path : List Settings.Step) (cause : Settings.Cause) (place : Json.Position)
  | unknownKind (key : String)
  | unreadable (file : String)
deriving DecidableEq, Repr

namespace SettingsError

/-- The part of the settings that an error is about. -/
def path? : SettingsError → Option String
  | malformed path _ _ => some (Settings.pathText path)
  | unknownKind key => some ("literals." ++ key)
  | unreadable _ => none

/-- What is said about that part. -/
def reason : SettingsError → String
  | malformed _ cause place => cause.message ++ " at " ++ place.text
  | unknownKind key => "unknown sentinel kind `" ++ key ++ "`"
  | unreadable file => "failed to read settings file " ++ file

def message (e : SettingsError) : String :=
  match e.path? with
  | some path => "invalid settings at JSON path " ++ path ++ ": " ++ e.reason
  | none => e.reason

end SettingsError

/-! ## What settings mean -/

namespace Settings

/-- How deep a value may lie. -/
def depthLimit (s : Settings) : Nat := s.maxDepth.getD defaultMaxDepth

/-- The kind that a key of the literals stands for. -/
def kindOfKey? (key : String) : Option Scalar :=
  match key with
  | "string" => some .string
  | "number" => some .number
  | "boolean" => some .boolean
  | "null" => some .null
  | "undefined" => some .undefined
  | "date" => some .date
  | "recordId" => some .recordId
  | "uuid" => some .uuid
  | _ => none

/-- Set the literal that an entry of the table asks for. -/
def setLiteral (l : Literals) (entry : String × String) : Except SettingsError Literals :=
  match kindOfKey? entry.1 with
  | some kind => .ok (l.set kind entry.2)
  | none => .error (.unknownKind entry.1)

/-- The options for declarations. -/
def emitOptions (s : Settings) : Except SettingsError EmitOptions := do
  let literals ← s.literals.toList.foldlM setLiteral {}
  let literals := match s.bottom with
    | some bottom => { literals with bottom }
    | none => literals
  return ⟨s.useTypeAlias.getD false, s.rootAsTuple.getD false, literals⟩

end Settings

end Silhouette
