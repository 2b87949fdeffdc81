import Silhouette.Declaration.Literals
import Silhouette.Declaration.TypeExpr
import Silhouette.Graph.Structure

/-!
# Declaring the types of a structure

An `Emitter` collects declarations.  `Emitter.emit` adds those of one structure: every object type
that the root reaches is declared once, and a root that is no object is declared as an alias.

Names come from where a type is first met, walking the graph **breadth first** from the root: the
root has the name asked for, a field's type is named after its key, a list's elements after the
list with `Item` behind it, and the members of a union after the union.  A name is made fresh
against every name handed out before, by this structure or an earlier one, and against the literals
and the global types of the target language.  How it is found is left open (`Emitter.emitWith`);
`Emitter.emit` takes a `freshName`.

Names are assigned before anything is declared, and those that were handed out stay taken when the
structure turns out to refer to a type that is not registered.  Declarations are added one at a
time, each as soon as it is made: that of a root that is no object, and then those of the named
objects in the order of their names.
-/

set_option autoImplicit false

namespace Silhouette

/-- Why a structure could not be declared. -/
inductive EmitError where
  /-- A type is referred to that is not registered. -/
  | missingType (id : NodeId)
  /-- The name for the root cannot be declared. -/
  | invalidName (name : String)
  /-- A list or union is a part of itself without an object in between, so it has no finite text. -/
  | endless (id : NodeId)
deriving DecidableEq, Repr

def EmitError.message : EmitError → String
  | missingType id => "type " ++ id.text ++ " is referenced but missing from the registry"
  | invalidName name => "`" ++ name ++ "` is not a usable declaration name"
  | endless id => "type " ++ id.text ++ " is a part of itself"

/-- The global types of TypeScript that a declaration must not shadow. -/
def globalTypes : List String :=
  ["Array", "ArrayBuffer", "BigInt", "Boolean", "DataView", "Date", "Error", "Function", "JSON",
    "Map", "Math", "Number", "Object", "Promise", "Record", "RegExp", "Set", "String", "Symbol",
    "WeakMap", "WeakSet", "Partial", "Readonly", "Required", "Pick", "Omit"]

/-! ## Naming -/

/-- The names of object types, in the order in which they were met. -/
abbrev Names := List (NodeId × String)

/-- A type that is still to be visited. -/
structure Visit where
  type : TypeId
  /-- What to name the type after. -/
  hint : String
  /-- Whether the hint is the name, handed out already. -/
  isName : Bool := false

/-- The types to visit after one with this description. -/
def Visit.next (hint : String) : Descriptor → List Visit
  | .object fields => fields.toList.map fun (key, f) ↦ { type := f.type, hint := pascalCase key }
  | .array item => [{ type := item, hint := hint ++ "Item" }]
  | .union members => members.toList.map fun id ↦ { type := id, hint }

/-- Name every object type that a queue of visits leads to.  The second component is the names taken
in the end, whether or not all types were found. -/
def assignNames (find : NameFinder) (r : Registry) (seen : List NodeId) (taken : TakenNames)
    (names : Names) (queue : List Visit) : Except EmitError Names × TakenNames :=
  match queue with
  | [] => (.ok names, taken)
  | ⟨.scalar _, _, _⟩ :: queue => assignNames find r seen taken names queue
  | ⟨.node id, hint, isName⟩ :: queue =>
    if hs : id ∈ seen then assignNames find r seen taken names queue
    else
      match h : r.get? id with
      | none => (.error (.missingType id), taken)
      | some d =>
        have := Registry.length_unseen_cons_lt (Registry.mem_ids_of_get? h) hs
        let queue := queue ++ Visit.next hint d
        match d with
        | .object _ =>
          if isName then assignNames find r (id :: seen) taken (names ++ [(id, hint)]) queue
          else
            let name := find taken hint
            assignNames find r (id :: seen) (taken.insert name) (names ++ [(id, name)]) queue
        | _ => assignNames find r (id :: seen) taken names queue
termination_by ((r.unseen seen).length, queue.length)
decreasing_by
  · exact .right _ (by simp)
  · exact .right _ (by simp)
  all_goals exact .left _ _ ‹_›

/-! ## Type expressions -/

/-- Whether a type reads best at the end of a union. -/
def isTrailing : TypeId → Bool
  | .scalar .null => true
  | .scalar .undefined => true
  | _ => false

/-- The members of a union in the order in which they are written. -/
def writtenOrder (members : List TypeId) : List TypeId :=
  members.filter (fun id ↦ !isTrailing id) ++ members.filter isTrailing

/-- A type as an expression, its lists and unions nested less than `height` deep. -/
def typeExprWithin (literals : Literals) (r : Registry) (names : Names) :
    (height : Nat) → TypeId → Except EmitError TypeExpr
  | _, .scalar kind => .ok (.literal (literals.scalar kind))
  | 0, .node id => .error (.endless id)
  | height + 1, .node id =>
    match r.get? id with
    | none => .error (.missingType id)
    | some (.object _) =>
      match names.lookup id with
      | some name => .ok (.name name)
      | none => .error (.missingType id)
    | some (.array item) => do
      return .array (← typeExprWithin literals r names height item)
    | some (.union members) =>
      if members.isEmpty then .ok (.literal literals.bottom)
      else do
        return .union
          (← (writtenOrder members.toList).mapM (typeExprWithin literals r names height))

/-- A type as an expression. -/
def typeExpr (literals : Literals) (r : Registry) (names : Names) (id : TypeId) :
    Except EmitError TypeExpr :=
  typeExprWithin literals r names (r.size + 1) id

/-! ## Declarations -/

/-- The fields of an object in natural order. -/
def naturalOrder (fields : Fields) : List (String × Field) :=
  (Ordered.ofList fields.toList :
    Ordered fun (entry : String × Field) ↦ NaturalKey.ofKey entry.1).toList

/-- An object type. -/
def recordOf (options : EmitOptions) (r : Registry) (names : Names) (name : String)
    (fields : Fields) : Except EmitError Declaration := do
  let properties ← fields.toList.mapM fun (key, f) ↦ do
    return ⟨key, f.isOptional, ← typeExpr options.literals r names f.type⟩
  return .record name options.useTypeAlias properties

/-- The types of the fields of an object. -/
def tupleOf (options : EmitOptions) (r : Registry) (names : Names) (name : String)
    (fields : Fields) : Except EmitError Declaration := do
  let elements ← (naturalOrder fields).mapM fun (_, f) ↦ typeExpr options.literals r names f.type
  return .tuple name elements

/-- The declaration of a named object type. -/
def declare (options : EmitOptions) (s : Structure) (names : Names) (entry : NodeId × String) :
    Except EmitError (List Declaration) :=
  match s.types.get? entry.1 with
  | some (.object fields) => do
    if options.rootAsTuple ∧ s.root = .node entry.1 then
      return [← tupleOf options s.types names entry.2 fields]
    else return [← recordOf options s.types names entry.2 fields]
  | _ => .ok []

/-- Whether the root of a structure is an object. -/
def Structure.hasObjectRoot (s : Structure) : Bool :=
  match s.types.describe? s.root with
  | some (.object _) => true
  | _ => false

/-- The declaration of a root that is no object. -/
def declareRoot (options : EmitOptions) (s : Structure) (rootName : String) (names : Names) :
    Except EmitError (List Declaration) :=
  if s.hasObjectRoot then .ok []
  else do
    return [.synonym rootName (← typeExpr options.literals s.types names s.root)]

/-! ## The emitter -/

/-- Declarations and the names that are taken. -/
structure Emitter where
  options : EmitOptions
  taken : TakenNames
  declarations : List Declaration

namespace Emitter

/-- No declarations yet. -/
def new (options : EmitOptions) : Emitter :=
  ⟨options, .ofList (globalTypes ++ options.literals.all), []⟩

/-- Put declarations behind those that are there. -/
def push (e : Emitter) (added : List Declaration) : Emitter :=
  { e with declarations := e.declarations ++ added }

/-- Declare named objects one after another, up to the first that cannot be declared. -/
def declareEach (e : Emitter) (s : Structure) (names : Names) :
    (entries : Names) → Except EmitError Unit × Emitter
  | [] => (.ok (), e)
  | entry :: entries =>
    match declare e.options s names entry with
    | .error error => (.error error, e)
    | .ok added => (e.push added).declareEach s names entries

/-- Declare a structure whose objects have names. -/
def declareNamed (e : Emitter) (s : Structure) (rootName : String) (names : Names) :
    Except EmitError Unit × Emitter :=
  match declareRoot e.options s rootName names with
  | .error error => (.error error, e)
  | .ok added => (e.push added).declareEach s names names

/-- Declare the types of a structure, the root under a name as close as can be to the one given. -/
def emitWith (find : NameFinder) (e : Emitter) (s : Structure) (rootName : String) :
    Except EmitError Unit × Emitter :=
  if !Text.isIdentifier rootName then (.error (.invalidName rootName), e)
  else
    let rootName := find e.taken rootName
    let (names, taken) := assignNames find s.types [] (e.taken.insert rootName) []
      [{ type := s.root, hint := rootName, isName := true }]
    let e := { e with taken }
    match names with
    | .error error => (.error error, e)
    | .ok names => e.declareNamed s rootName names

/-- Declare the types of a structure, all under fresh names. -/
def emit (e : Emitter) (s : Structure) (rootName : String) : Except EmitError Unit × Emitter :=
  e.emitWith freshName s rootName

/-- All declarations, with an empty line between any two. -/
def text (e : Emitter) : String := "\n".intercalate (e.declarations.map Declaration.text)

end Emitter

end Silhouette
