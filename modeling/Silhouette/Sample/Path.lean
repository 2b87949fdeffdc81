/-!
# Places inside a sample

A `Path` leads from a sample to one of its parts, by keys and indices.  It is held from the inside
out, so that going one step deeper is a `cons`.  Written out it looks like `rows[2].owner.id`, and
the sample itself is a single point.
-/

set_option autoImplicit false

namespace Silhouette

/-- One step into a value. -/
inductive Path.Step where
  | key (name : String)
  | index (n : Nat)
deriving DecidableEq, Repr

/-- The steps to a part of a sample, the last one first. -/
structure Path where
  steps : List Path.Step
deriving DecidableEq, Repr

namespace Path

/-- The sample itself. -/
def root : Path := ⟨[]⟩

def push (p : Path) (s : Step) : Path := ⟨s :: p.steps⟩

/-- How many steps lead to the part. -/
def depth (p : Path) : Nat := p.steps.length

@[simp] theorem depth_root : root.depth = 0 := rfl

@[simp] theorem depth_push (p : Path) (s : Step) : (p.push s).depth = p.depth + 1 := rfl

/-- A step as it is written behind others. -/
def Step.text : Step → String
  | key name => "." ++ name
  | index n => "[" ++ toString n ++ "]"

/-- A step as it is written at the start. -/
def Step.leadingText : Step → String
  | key name => name
  | s => s.text

/-- A path written out. -/
def text (p : Path) : String :=
  match p.steps.reverse with
  | [] => "."
  | s :: rest => s.leadingText ++ String.join (rest.map Step.text)

end Path

end Silhouette
