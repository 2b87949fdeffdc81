import Silhouette.Command.Run

/-!
# The program

`main` carries out a request on a real machine: it gives `Request.carryOut` actions that read and
actions that write, and its exit code tells how it ended — 0 for success and for an answer to a
question, 1 for a command that failed, 2 for arguments that are no request.
-/

set_option autoImplicit false

namespace Silhouette

/-! ## Files of the machine -/

/-- The fault that the machine reports. -/
def FileFault.ofError : IO.Error → FileFault
  | .noFileOrDirectory _ _ _ => .notFound
  | .permissionDenied _ _ _ => .permissionDenied
  | .alreadyExists _ _ _ => .alreadyExists
  | .inappropriateType _ 21 _ => .isDirectory
  | .inappropriateType _ _ _ => .notDirectory
  | e => .other (toString e)

/-- An action, with its fault as a value. -/
def attempt {α : Type} (action : IO α) : IO (Except FileFault α) := do
  match ← action.toBaseIO with
  | .ok a => return .ok a
  | .error e => return .error (.ofError e)

/-- The text that bytes stand for. -/
def decode (bytes : ByteArray) : Except FileFault String :=
  match String.fromUTF8? bytes with
  | some text => .ok text
  | none => .error .notText

/-- Reading from the machine. -/
def machineHost : IO (Host IO) := do
  let here ← IO.currentDir
  return {
    readInput := return (← attempt do (← IO.getStdin).readBinToEnd) >>= decode
    readFile path := return (← attempt (IO.FS.readBinFile (here / path))) >>= decode
    isDirectory path := (here / path).isDir
    isPresent path := (here / path).pathExists
    names path := return (← attempt (here / path).readDir).map fun entries ↦
      (entries.toList.map fun entry ↦ entry.fileName).mergeSort fun a b ↦ a ≤ b }

/-- Writing to the machine. -/
def machineSink : IO (Sink IO) := do
  let here ← IO.currentDir
  return {
    makeDirectories path := attempt (IO.FS.createDirAll (here / path))
    writeFile path text := attempt (IO.FS.writeFile (here / path) text)
    print := IO.print }

/-! ## Talking to the caller -/

/-- What an option is for. -/
def Choice.about : Choice → String
  | ndjson => "every line of the input is a sample"
  | jsonPointer => "the part of every sample that counts, as a JSON pointer"
  | queryId => "the samples are the results of the query with this name"
  | perFile => "infer a type for every file"
  | config => "a settings file"
  | input => "paths, quoted patterns, or - for the standard input"
  | out => "the file to write; without it the product is printed"
  | rootName => "the name of the top-level type"
  | typeAlias => "declare type aliases, not interfaces"
  | tupleRoot => "declare an object at the root as a tuple of its fields"
  | verbose => "log more, and all if given twice"
  | quiet => "log errors only"
  | help => "show this text"
  | version => "show the version"

/-- The line of the help text for an option. -/
def Choice.helpLine (c : Choice) : String :=
  let letter := match c.short? with
    | some s => "-" ++ s.toString ++ ", "
    | none => "    "
  let value := if c.manner.takesValues then " <value>" else ""
  "  " ++ letter ++ "--" ++ c.long ++ value ++ "  " ++ c.about

/-- What can be asked for. -/
def helpText : String :=
  let options := (Choice.leading ++ Subcommand.types.choices).eraseDups
  "\n".intercalate <|
    ["Infer types from JSON samples and declare them in TypeScript.", "",
      "Usage: silhouette [options] <types|structure> --input <value>... [options]", "",
      "  types      declare the types",
      "  structure  print the graph of the types as JSON",
      "  help       show this text", "",
      "Options:"] ++ options.map Choice.helpLine

/-- What is said about arguments that are no request. -/
def UsageFault.message : UsageFault → String
  | helpAsked => helpText
  | versionAsked => "silhouette 1.0.0"
  | nothingAsked => helpText
  | noSubcommand => "error: a subcommand is missing"
  | unknownSubcommand => "error: there is no such subcommand"
  | unknownArgument => "error: an argument is not known here"
  | badValue => "error: an option has no value"
  | needlessValue => "error: an option that takes no value has one"
  | givenTwice => "error: an option is given twice"
  | noInput => "error: no input is given"

/-- Whether the arguments were a question that is now answered. -/
def UsageFault.isAnswer (fault : UsageFault) : Bool := fault = helpAsked || fault = versionAsked

/-- Carry out what the arguments ask for. -/
def execute (args : List String) : IO UInt32 := do
  match Request.parse args with
  | .error fault =>
    if fault.isAnswer then
      IO.println fault.message
      return 0
    else
      IO.eprintln fault.message
      return 2
  | .ok request =>
    let host ← machineHost
    let sink ← machineSink
    match ← (request.carryOut host sink).run with
    | .ok () =>
      if let some out := request.out then
        if request.level ≠ .error then IO.eprintln ("wrote " ++ out)
      return 0
    | .error e =>
      IO.eprintln ("error: " ++ e.message)
      return 1

end Silhouette

/-- Run the program. -/
def main (args : List String) : IO UInt32 := Silhouette.execute args
