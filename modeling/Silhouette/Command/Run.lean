import Silhouette.Command.Document
import Silhouette.Declaration.Emitter
import Silhouette.Json.Printer
import Silhouette.Settings.Reader

/-!
# Carrying out a request

A command first makes its product and then delivers it.

* `Request.produce` reads the settings and the documents, infers a structure for every `Job` and
  makes one text of them.  It holds a `Host` only, so it writes nothing.
* `Request.deliver` writes the text to a file, or prints it with a line end.
* `Request.carryOut` does one after the other, and `Request.run` does both in a tree of files and
  answers an `Outcome`.

Everything that can fail in the settings fails before a document is read, every document is read
before anything is inferred, and every job is inferred before the first declaration is made.
-/

set_option autoImplicit false

namespace Silhouette

/-! ## Jobs -/

/-- Samples that get one type, and its name. -/
structure Job where
  name : String
  samples : List Json

namespace Job

/-- The jobs for the documents: one for each, named after its source, or one for all. -/
def ofDocuments (perFile : Bool) (name : String) (documents : List Document) : List Job :=
  if perFile then documents.map fun d ↦ ⟨pascalCase (PathText.stem d.source), d.samples⟩
  else [⟨name, documents.flatMap Document.samples⟩]

/-- The structure of a job.  A single sample stands for itself unless it is a line of many. -/
def infer (selection : Selection) (limit : Nat) (job : Job) :
    Except InferenceError Structure :=
  match selection.queryId, job.samples with
  | some id, samples => inferQuery limit id samples
  | none, [sample] =>
    if selection.ndjson then inferSamples limit [sample] else inferValue limit sample
  | none, samples => inferSamples limit samples

end Job

/-! ## Products -/

/-- A structure and its name. -/
abbrev Named := String × Structure

/-- Declare structures one after another. -/
def Emitter.emitAll (e : Emitter) : List Named → Except CommandError Emitter
  | [] => .ok e
  | (name, s) :: rest =>
    match e.emit s name with
    | (.ok (), e) => e.emitAll rest
    | (.error error, _) => .error (.emission name error)

namespace Request

/-- The options for declarations: what the arguments or the settings ask for. -/
def emitOptions (settings : Settings) (typeAlias tupleRoot : Bool) :
    Except CommandError EmitOptions := do
  let options ← settings.emitOptions.mapError .badOptions
  return { options with
    useTypeAlias := options.useTypeAlias || typeAlias
    rootAsTuple := options.rootAsTuple || tupleRoot }

/-- An object with a member for every structure; a name that comes again takes the last one. -/
def byName (structures : List Named) : Json :=
  .object (structures.foldl (fun members (name, s) ↦ Json.put members name s.toJson) [])

/-- The graphs as one text. -/
def graphText (perFile : Bool) (structures : List Named) : String :=
  if perFile then (byName structures).pretty
  else String.join (structures.map fun (_, s) ↦ s.toJson.pretty)

/-! ## Making and delivering -/

variable {m : Type → Type} [Monad m]

/-- The settings; without a file they ask for nothing. -/
def settings (host : Host m) (config? : Option String) : Work m Settings :=
  match config? with
  | none => return {}
  | some file => do
    let text ← Work.ofAction (.unreadableSettings file) (host.readFile file)
    Work.ofExcept ((Settings.parse text).mapError (.badSettings file))

/-- A structure for every job over the documents. -/
def structures (host : Host m) (selection : Selection) (settings : Settings) (name : String) :
    Work m (List Named) := do
  let documents ← selection.documents host
  (Job.ofDocuments selection.perFile name documents).mapM fun job ↦ do
    let s ← Work.ofExcept
      ((job.infer selection settings.depthLimit).mapError (.inference job.name))
    return (job.name, s)

/-- The text that a request asks for. -/
def produce (host : Host m) (r : Request) : Work m String := do
  let settings ← Request.settings host r.selection.config
  match r.product with
  | .types rootName typeAlias tupleRoot =>
    let options ← Work.ofExcept (emitOptions settings typeAlias tupleRoot)
    let name := (rootName <|> settings.rootName <|> r.selection.queryId).getD "Root"
    let named ← structures host r.selection settings name
    let emitter ← Work.ofExcept ((Emitter.new options).emitAll named)
    return emitter.text
  | .graph =>
    let named ← structures host r.selection settings (settings.rootName.getD "Root")
    return graphText r.selection.perFile named

/-- Write a text to a file, whose directory is made first, or print it. -/
def deliver (sink : Sink m) (out? : Option String) (text : String) : Work m Unit :=
  match out? with
  | none => Work.lift (sink.print (text ++ "\n"))
  | some out => do
    if let some directory := PathText.parent? out then
      Work.ofAction (.uncreatable directory) (sink.makeDirectories directory)
    Work.ofAction (.unwritable out) (sink.writeFile out text)

/-- Make what is asked for and deliver it. -/
def carryOut (host : Host m) (sink : Sink m) (r : Request) : Work m Unit := do
  deliver sink r.out (← r.produce host)

/-! ## In a tree of files -/

/-- What a command leaves behind. -/
structure Outcome where
  error? : Option CommandError
  printed : String
  tree : FileTree

/-- Deliver a text in a tree of files. -/
def deliverIn (tree : FileTree) (out? : Option String) (text : String) : Outcome :=
  match (deliver Desk.sink out? text).run ⟨tree, ""⟩ with
  | (.ok (), desk) => ⟨none, desk.printed, desk.tree⟩
  | (.error e, desk) => ⟨some e, desk.printed, desk.tree⟩

/-- Carry out a request in a tree of files and with a given input. -/
def run (r : Request) (tree : FileTree) (input : Input) : Outcome :=
  match ((r.produce tree.host).run.run input).1 with
  | .ok text => deliverIn tree r.out text
  | .error e => ⟨some e, "", tree⟩

end Request

end Silhouette
