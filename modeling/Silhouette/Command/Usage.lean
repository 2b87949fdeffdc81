/-!
# The options of the command line

There are two subcommands, `types` and `structure`, and the word `help` in place of one.  `Choice`
names the options, `Choice.manner` says what each of them takes and how often it may be given, and
`Subcommand.choices` which of them a subcommand knows.

`UsageFault` is why arguments are not a request; asking for help or for the version is one of the
reasons.
-/

set_option autoImplicit false

namespace Silhouette

/-- Why arguments are not a request. -/
inductive UsageFault where
  | helpAsked
  | versionAsked
  | nothingAsked
  | noSubcommand
  | unknownSubcommand
  /-- An option that is not known here, or a word that belongs to no option. -/
  | unknownArgument
  /-- An option without a value, or with an empty one where a path is due. -/
  | badValue
  /-- An option that takes no value has one. -/
  | needlessValue
  | givenTwice
  | noInput
deriving DecidableEq, Repr

inductive Choice where
  | ndjson
  | jsonPointer
  | queryId
  | perFile
  | config
  | input
  | out
  | rootName
  | typeAlias
  | tupleRoot
  | verbose
  | quiet
  | help
  | version
deriving DecidableEq, Repr

/-- What an option takes. -/
inductive Manner where
  /-- Nothing; given at most once. -/
  | mark
  /-- Nothing; given any number of times. -/
  | count
  /-- One value; given at most once. -/
  | value (mayBeEmpty : Bool)
  /-- At least one value; given any number of times. -/
  | values
  /-- Nothing; it ends the reading of the arguments. -/
  | stop (fault : UsageFault)
deriving DecidableEq, Repr

def Manner.takesValues : Manner → Bool
  | value _ => true
  | values => true
  | _ => false

namespace Choice

/-- The name behind two dashes. -/
def long : Choice → String
  | ndjson => "ndjson"
  | jsonPointer => "json-pointer"
  | queryId => "query-id"
  | perFile => "per-file"
  | config => "config"
  | input => "input"
  | out => "out"
  | rootName => "root-name"
  | typeAlias => "type-alias"
  | tupleRoot => "tuple-root"
  | verbose => "verbose"
  | quiet => "quiet"
  | help => "help"
  | version => "version"

/-- The letter behind one dash. -/
def short? : Choice → Option Char
  | input => some 'i'
  | out => some 'o'
  | verbose => some 'v'
  | quiet => some 'q'
  | help => some 'h'
  | version => some 'V'
  | _ => none

def manner : Choice → Manner
  | ndjson => .mark
  | jsonPointer => .value true
  | queryId => .value true
  | perFile => .mark
  | config => .value false
  | input => .values
  | out => .value false
  | rootName => .value true
  | typeAlias => .mark
  | tupleRoot => .mark
  | verbose => .count
  | quiet => .mark
  | help => .stop .helpAsked
  | version => .stop .versionAsked

/-- The options before a subcommand. -/
def leading : List Choice := [verbose, quiet, help, version]

end Choice

inductive Subcommand where
  | types
  | graph
  | help
deriving DecidableEq, Repr

namespace Subcommand

def name : Subcommand → String
  | types => "types"
  | graph => "structure"
  | help => "help"

/-- All subcommands. -/
def all : List Subcommand := [types, graph, help]

def ofName? (s : String) : Option Subcommand := all.find? fun c ↦ c.name == s

/-- The options that both subcommands know. -/
def sharedChoices : List Choice :=
  [.ndjson, .jsonPointer, .queryId, .perFile, .config, .input, .out, .verbose, .quiet, .help]

/-- The options behind a subcommand. -/
def choices : Subcommand → List Choice
  | types => sharedChoices ++ [.rootName, .typeAlias, .tupleRoot]
  | graph => sharedChoices
  | help => []

end Subcommand

end Silhouette
