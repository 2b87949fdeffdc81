import Silhouette.Command.Level
import Silhouette.Command.Usage

/-!
# What the arguments ask for

`Request.parse` reads the arguments of the program from the first to the last.  An option that takes
values is **waiting** until it is clear that it gets no more: it is taken down only when the next
option comes or the arguments end, and its faults come to light then.  A word that means nothing
ends the reading before that, so it hides a fault of the option that waits.

A value may follow its option as a word of its own, behind `=`, or right behind the letter of the
option; in the last two forms it is the only value.  Letters may share one dash as long as only the
last takes a value.  Behind `--` there are no options, and no word may stand there either.
-/

set_option autoImplicit false

namespace Silhouette

/-! ## Options taken down -/

/-- The options that were given, with their values, in order. -/
abbrev Given := List (Choice × List String)

namespace Given

/-- Whether an option was given. -/
def has (given : Given) (choice : Choice) : Bool := given.any fun g ↦ g.1 = choice

/-- The values of an option, over all the times it was given. -/
def values (given : Given) (choice : Choice) : List String :=
  given.flatMap fun g ↦ if g.1 = choice then g.2 else []

def value? (given : Given) (choice : Choice) : Option String := (given.values choice).head?

def count (given : Given) (choice : Choice) : Nat := given.countP fun g ↦ g.1 = choice

/-- Take down an option, unless it was given in another manner than its own. -/
def add (given : Given) (choice : Choice) (values : List String) : Except UsageFault Given :=
  let taken : Except UsageFault Given := .ok (given ++ [(choice, values)])
  match choice.manner with
  | .stop fault => .error fault
  | .count => taken
  | .mark => if given.has choice then .error .givenTwice else taken
  | .values => if values = [] then .error .badValue else taken
  | .value mayBeEmpty =>
    if values = [] then .error .badValue
    else if given.has choice then .error .givenTwice
    else if !mayBeEmpty && values = [""] then .error .badValue
    else taken

end Given

/-! ## Reading options -/

/-- The options taken down, and the one that waits with the values it has. -/
structure Reading where
  given : Given := []
  waiting : Option (Choice × List String) := none

namespace Reading

/-- Take down the option that waits. -/
def settle (r : Reading) : Except UsageFault Given :=
  match r.waiting with
  | some (choice, values) => r.given.add choice values
  | none => .ok r.given

/-- Take down an option with all its values. -/
def add (r : Reading) (choice : Choice) (values : List String) : Except UsageFault Reading := do
  return ⟨← (← r.settle).add choice values, none⟩

/-- Let an option wait for values if it takes any. -/
def start (r : Reading) (choice : Choice) : Except UsageFault Reading := do
  if choice.manner.takesValues then return ⟨← r.settle, some (choice, [])⟩ else r.add choice []

/-- Give a word to the option that waits, if it takes one more. -/
def feed? (r : Reading) (word : String) : Option Reading := do
  let (choice, values) ← r.waiting
  if values = [] || choice.manner = .values then
    some { r with waiting := some (choice, values ++ [word]) }
  else none

/-- Read what stands behind two dashes. -/
def readLong (known : List Choice) (r : Reading) (cs : List Char) : Except UsageFault Reading :=
  match known.find? fun c ↦ c.long == String.ofList (cs.takeWhile (· ≠ '=')) with
  | none => .error .unknownArgument
  | some choice =>
    match cs.dropWhile (· ≠ '=') with
    | [] => r.start choice
    | _ :: value =>
      if choice.manner.takesValues then r.add choice [String.ofList value]
      else .error .needlessValue

/-- Read the letters behind one dash. -/
def readLetters (known : List Choice) (r : Reading) : List Char → Except UsageFault Reading
  | [] => .ok r
  | c :: cs =>
    match known.find? fun choice ↦ choice.short? == some c with
    | none => .error .unknownArgument
    | some choice =>
      if choice.manner.takesValues then
        match cs with
        | [] => r.start choice
        | '=' :: value => r.add choice [String.ofList value]
        | value => r.add choice [String.ofList value]
      else do readLetters known (← r.start choice) cs

/-- Read one argument; `none` if it is a word that belongs to no option. -/
def read (known : List Choice) (r : Reading) (arg : String) :
    Except UsageFault (Option Reading) :=
  match arg.toList with
  | '-' :: '-' :: cs => some <$> readLong known r cs
  | '-' :: c :: cs => some <$> readLetters known r (c :: cs)
  | _ => .ok (r.feed? arg)

/-- Read the arguments behind a subcommand. -/
def readAll (known : List Choice) (r : Reading) : List String → Except UsageFault Given
  | [] => r.settle
  | arg :: rest => do
    if arg = "--" then
      if rest = [] then r.settle else throw .unknownArgument
    else
      match ← r.read known arg with
      | some r => readAll known r rest
      | none => throw .unknownArgument

end Reading

/-! ## Requests -/

/-- Which samples are asked for. -/
structure Selection where
  /-- Paths, patterns and `-` for the input. -/
  inputs : List String
  /-- Every line is a sample. -/
  ndjson : Bool
  /-- The part of every sample that counts. -/
  jsonPointer : Option String
  /-- The samples are the results of one query. -/
  queryId : Option String
  perFile : Bool
  /-- The settings file. -/
  config : Option String

/-- What is made of the samples. -/
inductive Product where
  /-- Declarations. -/
  | types (rootName : Option String) (typeAlias tupleRoot : Bool)
  /-- The graph itself. -/
  | graph

/-- What the arguments ask for. -/
structure Request where
  selection : Selection
  product : Product
  /-- The file to write; without one the product is printed. -/
  out : Option String
  level : Level

namespace Request

/-- The request for a product, from the options before and behind the subcommand. -/
def ofGiven (leading given : Given) (product : Product) : Except UsageFault Request :=
  if given.has .input then
    .ok ⟨⟨given.values .input, given.has .ndjson, given.value? .jsonPointer, given.value? .queryId,
        given.has .perFile, given.value? .config⟩, product, given.value? .out,
      .ofFlags (leading.count .verbose + given.count .verbose)
        (leading.has .quiet || given.has .quiet)⟩
  else .error .noInput

/-- Read what stands behind a subcommand. -/
def parseBehind (leading : Given) (subcommand : Subcommand) (args : List String) :
    Except UsageFault Request :=
  match subcommand with
  | .help =>
    match args with
    | [] => .error .helpAsked
    | [name] => .error (if (Subcommand.ofName? name).isSome then .helpAsked else .unknownSubcommand)
    | _ => .error .unknownSubcommand
  | .types => do
    let given ← Reading.readAll subcommand.choices {} args
    ofGiven leading given
      (.types (given.value? .rootName) (given.has .typeAlias) (given.has .tupleRoot))
  | .graph => do
    ofGiven leading (← Reading.readAll subcommand.choices {} args) .graph

/-- The fault of arguments without a subcommand. -/
def lacking (r : Reading) : UsageFault := if r.given = [] then .nothingAsked else .noSubcommand

/-- Read the arguments up to a subcommand, and then the rest. -/
def parseFrom (r : Reading) : List String → Except UsageFault Request
  | [] => .error (lacking r)
  | arg :: rest =>
    match Subcommand.ofName? arg with
    | some subcommand => parseBehind r.given subcommand rest
    | none =>
      if arg = "--" then
        match rest with
        | [] => .error (lacking r)
        | word :: _ =>
          .error (if (Subcommand.ofName? word).isSome then .unknownArgument else .unknownSubcommand)
      else do
        match ← r.read Choice.leading arg with
        | some r => parseFrom r rest
        | none => throw .unknownSubcommand

/-- Read the arguments of the program. -/
def parse (args : List String) : Except UsageFault Request := parseFrom {} args

end Request

end Silhouette
