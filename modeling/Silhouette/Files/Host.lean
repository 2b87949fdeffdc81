import Silhouette.Files.Tree

/-!
# What a command needs of the machine

A command reads files and its input, and at the end writes one file or prints one text.  `Host` is
the first half and `Sink` the second, so that whatever only holds a `Host` cannot write.  Both are
parameters of a command: a real machine gives actions, a `FileTree` gives functions on values.

Whatever is read may be refused, the input and the names in a directory no less than a file.  Only a
question whether something is there always has an answer.
-/

set_option autoImplicit false

namespace Silhouette

/-- What can be read. -/
structure Host (m : Type → Type) where
  /-- All of the input that is left. -/
  readInput : m (Except FileFault String)
  readFile : String → m (Except FileFault String)
  isDirectory : String → m Bool
  isPresent : String → m Bool
  /-- The names in a directory, in order. -/
  names : String → m (Except FileFault (List String))

/-- What can be written. -/
structure Sink (m : Type → Type) where
  makeDirectories : String → m (Except FileFault Unit)
  writeFile : String → String → m (Except FileFault Unit)
  print : String → m Unit

/-- The input of a program, or why it cannot be read. -/
abbrev Input := Except FileFault String

instance : Coe String Input := ⟨.ok⟩

/-- Reading from a tree of files, with an input that is used up. -/
def FileTree.host (t : FileTree) : Host (StateM Input) where
  readInput := getModify fun _ ↦ ""
  readFile path := return t.read path
  isDirectory path := return match t.entry path with
    | .ok (.directory _) => true
    | _ => false
  isPresent path := return (t.entry path).isOk
  names path := return t.list path

/-- Where a command writes: a tree of files and what was printed. -/
structure Desk where
  tree : FileTree
  printed : String

namespace Desk

/-- Writing to a tree of files.  A file is written as a whole or not at all; of a chain of
directories some may be made before one cannot. -/
def sink : Sink (StateM Desk) where
  makeDirectories path := modifyGet fun d ↦
    let (outcome, tree) := d.tree.makeDirectories path
    (outcome, { d with tree })
  writeFile path text := modifyGet fun d ↦
    match d.tree.write path text with
    | .ok tree => (.ok (), { d with tree })
    | .error fault => (.error fault, d)
  print text := modify fun d ↦ { d with printed := d.printed ++ text }

end Desk

end Silhouette
