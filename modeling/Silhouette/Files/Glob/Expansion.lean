import Silhouette.Files.Glob
import Silhouette.Files.Host

/-!
# The paths that a pattern stands for

`Glob.paths` walks the directories of a host along the pieces of a pattern.  A piece without
wildcards is only looked up; any other is held against the names in the directory, in their order.
So the paths come out sorted by their names, and a directory before what is in it.

A piece `**` stands for the directory the walk is in and for every directory below.  When it is the
last piece the directories themselves are answered; otherwise what the next piece fits is answered,
for each name before what lies below that name.

Names found in the working directory are not given a `./`, even if the pattern starts with one.

A directory whose names are needed and cannot be read ends the walk.
-/

set_option autoImplicit false

namespace Silhouette.Glob

variable {m : Type → Type} [Monad m]

/-- A directory whose names cannot be read. -/
structure Unlisted where
  directory : String
  fault : FileFault

/-- The names in a directory. -/
def list (host : Host m) (path : String) : ExceptT Unlisted m (List String) :=
  ExceptT.mk ((Except.mapError fun fault ↦ ⟨path, fault⟩) <$> host.names path)

/-- The path of a name in a directory. -/
def below (path name : String) : String :=
  if PathText.isHere path then name else PathText.join path name

/-- The paths from a path on that fit the rest of a pattern.  Every step uses up a piece or makes
the path longer, so `steps` need not exceed the number of pieces and the length of a path. -/
def expand (host : Host m) (directoriesOnly : Bool) :
    (steps : Nat) → String → List Component → ExceptT Unlisted m (List String)
  | 0, _, _ => return []
  | steps + 1, path, pattern => do
    let isDirectory ← host.isDirectory path
    match pattern with
    | [] => return if directoriesOnly && !isDirectory then [] else [path]
    | c :: rest =>
      match c.literal? with
      | some name =>
        let next := below path name
        let isThere ← if name = "." || name = ".." then pure isDirectory else host.isPresent next
        if isThere then expand host directoriesOnly steps next rest else return []
      | none =>
        if !isDirectory then return []
        let names ← list host path
        let dots ← c.dots.mapM fun name ↦
          expand host directoriesOnly steps (PathText.join path name) rest
        let found ← names.mapM fun name ↦ do
          let next := below path name
          if !c.isDirectories then
            if c.fits name.toList then expand host directoriesOnly steps next rest else return []
          else
            let isDirectory ← host.isDirectory next
            let deeper (rest : List Component) : ExceptT Unlisted m (List String) :=
              if isDirectory then expand host directoriesOnly steps next (c :: rest) else return []
            match rest.dropWhile Component.isDirectories with
            | [] => return (if isDirectory then [next] else []) ++ (← deeper [])
            | d :: later =>
              let here ← if d.fits name.toList then expand host directoriesOnly steps next later
                else pure []
              return here ++ (← deeper (d :: later))
        return dots.flatten ++ found.flatten

/-- The paths that a pattern stands for. -/
def paths (host : Host m) (g : Glob) : ExceptT Unlisted m (List String) :=
  expand host g.directoriesOnly (g.components.length + PathText.maxPathBytes)
    (if g.isAbsolute then "/" else ".") g.components

end Silhouette.Glob
