import Silhouette.Files.Fault
import Silhouette.Files.PathText
import Silhouette.Ordered

/-!
# A tree of files in memory

`FileTree` is a working directory with the files in it, each under its `Place`: the names that lead
to it from the top of the tree.  A directory is there when a file lies in it or when it was made.
Reading may come to nothing in two ways: the bytes of a file may be no text, and files and
directories may be closed to readers.

A path is walked piece by piece (`FileTree.enter`), so it may go up again and may leave the tree.
Nothing is known about what is outside: nothing is found there, and what is written there is no
part of the tree.

* `FileTree.read` answers the text of a file, and `FileTree.list` the names in a directory;
* `FileTree.makeDirectories` makes a directory and those it lies in, as far as it gets;
* `FileTree.write` writes a file in a directory that is there;
* `FileTree.changes` lists what is new or different in a later tree.
-/

set_option autoImplicit false

namespace Silhouette

/-- The names that lead to a file or directory from the top of a tree. -/
abbrev Place := List String

/-- What a file holds: a text, or bytes that are no text. -/
inductive Content where
  | text (s : String)
  | binary (bytes : { bytes : ByteArray // ¬ bytes.IsValidUTF8 })

namespace Content

/-- The text, if there is one. -/
def text? : Content → Option String
  | text s => some s
  | binary _ => none

/-- What reading answers. -/
def read (c : Content) : Except FileFault String :=
  match c.text? with
  | some s => .ok s
  | none => .error .notText

end Content

structure FileTree where
  files : List (Place × Content)
  /-- Directories that were made. -/
  made : List Place := []
  /-- Files and directories that may not be read.  They can still be written, and gone through. -/
  closed : List Place := []

namespace FileTree

/-- A tree of texts under their paths. -/
def ofList (files : List (String × String)) : FileTree where
  files := files.map fun f ↦ (PathText.pieces f.1, .text f.2)

/-- Whether there is a directory at a place. -/
def isDirectory (t : FileTree) (p : Place) : Bool :=
  p.isEmpty || t.made.contains p ||
    t.files.any fun f ↦ p.isPrefixOf f.1 && p.length < f.1.length

/-- The names in the directory at a place, in order. -/
def names (t : FileTree) (p : Place) : List String :=
  let found := (t.files.map Prod.fst ++ t.made).filterMap fun q ↦
    if p.isPrefixOf q then q[p.length]? else none
  (Ordered.ofList found : Ordered fun (name : String) ↦ name).toList

/-! ## Walking a path -/

/-- Where a walk has come to: the place of a directory, or `none` outside the tree. -/
abbrev Spot := Option Place

/-- What a path leads to: a directory, or a file that answers this to a reader. -/
inductive Entry where
  | directory (spot : Spot)
  | file (answer : Except FileFault String)

/-- Refuse what cannot be a path. -/
def checkPath (path : String) : Except FileFault Unit :=
  if path.toList.contains '\x00' then .error .zeroCharacter
  else if path = "" then .error .notFound
  else if PathText.isTooLong path then .error .nameTooLong
  else .ok ()

/-- Where the walk of a path starts. -/
def start (path : String) : Spot := if PathText.isAbsolute path then none else some []

/-- The directory above. -/
def up (spot : Spot) : Spot := do
  let p ← spot
  if p = [] then none else some p.dropLast

/-- Refuse to read what is closed. -/
def checkOpen (t : FileTree) (p : Place) : Except FileFault Unit :=
  if t.closed.contains p then .error .permissionDenied else .ok ()

/-- What a piece of a path leads to from a directory. -/
def step (t : FileTree) (spot : Spot) (piece : String) : Except FileFault Entry :=
  if PathText.isStay piece then .ok (.directory spot)
  else if piece = ".." then .ok (.directory (up spot))
  else if PathText.isNameTooLong piece then .error .nameTooLong
  else
    match spot with
    | none => .error .notFound
    | some p =>
      let q := p ++ [piece]
      if t.isDirectory q then .ok (.directory (some q))
      else
        match t.files.lookup q with
        | some content => .ok (.file (t.checkOpen q >>= fun () ↦ content.read))
        | none => .error .notFound

/-- The directory that a piece of a path leads to. -/
def enter (t : FileTree) (spot : Spot) (piece : String) : Except FileFault Spot := do
  match ← t.step spot piece with
  | .directory spot => return spot
  | .file _ => throw .notDirectory

/-- What a path leads to. -/
def entry (t : FileTree) (path : String) : Except FileFault Entry := do
  checkPath path
  let pieces := PathText.pieces path
  let spot ← pieces.dropLast.foldlM t.enter (start path)
  t.step spot (pieces.getLastD "")

/-- What there is to read: a directory has no text, and a closed one does not even say so. -/
def readEntry (t : FileTree) : Entry → Except FileFault String
  | .file answer => answer
  | .directory none => .error .isDirectory
  | .directory (some p) => do
    t.checkOpen p
    throw .isDirectory

/-- The text of the file that a path leads to. -/
def read (t : FileTree) (path : String) : Except FileFault String := do
  t.readEntry (← t.entry path)

/-- The names in the directory that a path leads to, in order. -/
def list (t : FileTree) (path : String) : Except FileFault (List String) := do
  match ← t.entry path with
  | .file _ => throw .notDirectory
  | .directory none => return []
  | .directory (some p) =>
    t.checkOpen p
    return t.names p

/-! ## Writing -/

/-- Make what is missing of a chain of directories.  As long as nothing was missing, a path that
goes on below a file cannot be walked; once a directory had to be made (`began`), each further piece
is a directory to make, and a file holds the place of one.  What has been made stays if it comes to
a fault. -/
def makeFrom (t : FileTree) (spot : Spot) (began : Bool) :
    List String → Except FileFault Unit × FileTree
  | [] => (.ok (), t)
  | piece :: rest =>
    match t.step spot piece with
    | .ok (.directory spot) => makeFrom t spot began rest
    | .ok (.file _) =>
      (.error (if began || rest.isEmpty then .alreadyExists else .notDirectory), t)
    | .error .notFound =>
      let below := spot.map (· ++ [piece])
      makeFrom { t with made := below.toList ++ t.made } below true rest
    | .error fault => (.error fault, t)

/-- Make the directory that a path should lead to, and those it lies in.  The empty path asks for
nothing. -/
def makeDirectories (t : FileTree) (path : String) : Except FileFault Unit × FileTree :=
  if path = "" then (.ok (), t)
  else
    match checkPath path with
    | .ok () => t.makeFrom (start path) false (PathText.pieces path)
    | .error fault => (.error fault, t)

/-- Set the text of the file at a place. -/
def put (t : FileTree) (p : Place) (text : String) : FileTree :=
  { t with files := (p, .text text) :: t.files.filter fun f ↦ f.1 ≠ p }

/-- Write a file in a directory that is there.  A path that does not end in a name leads to no
file. -/
def write (t : FileTree) (path text : String) : Except FileFault FileTree := do
  checkPath path
  let pieces := (PathText.pieces path).filter (· ≠ "")
  let spot ← pieces.dropLast.foldlM t.enter (start path)
  let last := pieces.getLastD ""
  if !PathText.isName last || path.toList.getLast? = some '/' then throw .isDirectory
  match t.step spot last with
  | .ok (.directory _) => throw .isDirectory
  | .ok (.file _) | .error .notFound => return spot.elim t fun p ↦ t.put (p ++ [last]) text
  | .error fault => throw fault

/-- The texts of `t` that are not in `old`, or not in the same file, under their paths. -/
def changes (old t : FileTree) : List (String × String) :=
  t.files.filterMap fun (place, content) ↦ do
    let text ← content.text?
    if (old.files.lookup place).bind Content.text? = some text then none
    else return ("/".intercalate place, text)

end FileTree

end Silhouette
