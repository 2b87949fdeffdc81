import Silhouette.Command.Error
import Silhouette.Command.Request
import Silhouette.Files.Glob.Expansion
import Silhouette.Json.Parser
import Silhouette.Json.Pointer
import Silhouette.Text.Blank

/-!
# The documents of a command

A `Document` is one source — a file, or the input — with the samples in it.  `Source.document` finds
them in its text: the text itself is one sample, or each of its lines that is not blank, and of
every sample only the part under a pointer may count.  All of a text is parsed before any pointer
is followed.

`Selection.documents` reads the sources that a selection names.  All files of one pattern are read
before any of them is parsed; the next pattern is looked at after that.
-/

set_option autoImplicit false

namespace Silhouette

/-- A text that is read, and where it came from. -/
structure Source where
  name : String
  text : String

/-- The samples of one source. -/
structure Document where
  source : String
  samples : List Json

namespace Source

/-- The lines of a source that are not blank, with their numbers counted from 1. -/
def rows (s : Source) : List (String × Nat) :=
  ((Text.lines s.text).zipIdx 1).filter fun row ↦ !Text.isBlankLine row.1

/-- The samples in a source. -/
def samples (s : Source) (ndjson : Bool) : Except CommandError (List Json) :=
  if ndjson then
    s.rows.mapM fun (line, number) ↦
      (Json.parse line).mapError (.unparsable s.name (some number) line)
  else do
    return [← (Json.parse s.text).mapError (.unparsable s.name none s.text)]

/-- The part of a sample that counts. -/
def part (s : Source) (pointer? : Option String) (v : Json) : Except CommandError Json :=
  match pointer? with
  | none => .ok v
  | some pointer =>
    match v.pointer? pointer with
    | some part => .ok part
    | none => .error (.nothingSelected pointer s.name)

/-- The document in a source. -/
def document (s : Source) (selection : Selection) : Except CommandError Document := do
  let found ← s.samples selection.ndjson
  return ⟨s.name, ← found.mapM (s.part selection.jsonPointer)⟩

end Source

/-! ## Reading -/

/-- The work of a command on a host. -/
abbrev Work (m : Type → Type) := ExceptT CommandError m

namespace Work

variable {m : Type → Type} [Monad m]

/-- An outcome that is known. -/
def ofExcept {α : Type} (outcome : Except CommandError α) : Work m α := ExceptT.mk (pure outcome)

/-- An action that may come to a fault, with the error that the fault makes. -/
def ofAction {φ α : Type} (error : φ → CommandError) (action : m (Except φ α)) : Work m α :=
  ExceptT.mk ((Except.mapError error) <$> action)

/-- An action that does not fail. -/
def lift {α : Type} (action : m α) : Work m α := ExceptT.lift action

end Work

namespace Selection

variable {m : Type → Type} [Monad m] (host : Host m)

/-- The paths that one of the inputs stands for. -/
def paths (input : String) : Work m (List String) := do
  if Glob.isPattern input then
    let glob ← Work.ofExcept ((Glob.parse input).mapError (.badPattern input))
    let found ← Work.ofAction (fun u ↦ .unlisted u.directory u.fault) (glob.paths host).run
    if found = [] then throw (.nothingMatches input)
    return found
  else return [input]

/-- The texts that one of the inputs stands for; `-` is the input of the program. -/
def sources (input : String) : Work m (List Source) := do
  if input = "-" then return [⟨"<stdin>", ← Work.ofAction .unreadableInput host.readInput⟩]
  else
    (← paths host input).mapM fun path ↦ do
      return ⟨path, ← Work.ofAction (.unreadable path) (host.readFile path)⟩

/-- The documents that a selection names. -/
def documents (s : Selection) : Work m (List Document) := do
  let found ← s.inputs.mapM fun input ↦ do
    (← sources host input).mapM fun source ↦ Work.ofExcept (source.document s)
  return found.flatten

end Selection

end Silhouette
