/-!
# What can be wrong with a file

A path may lead nowhere, or to something of the wrong sort, or be no path at all; and what is there
may be kept from being read, or be no text.  These are the causes, and `FileFault.message` is their
wording.
-/

set_option autoImplicit false

namespace Silhouette

/-- Why a file could not be read or written, or a directory not be made. -/
inductive FileFault where
  | notFound
  | permissionDenied
  /-- A directory was to be made where a file is. -/
  | alreadyExists
  /-- The path goes on below a file. -/
  | notDirectory
  /-- A file was asked for where a directory is. -/
  | isDirectory
  | nameTooLong
  /-- The path holds the character that ends a path. -/
  | zeroCharacter
  /-- What was read is not UTF-8. -/
  | notText
  /-- Anything else that a machine may say. -/
  | other (text : String)
deriving DecidableEq, Repr

namespace FileFault

/-- A text with the number under which the fault is known. -/
def numbered (text : String) (number : Nat) : String :=
  text ++ " (os error " ++ toString number ++ ")"

def message : FileFault → String
  | notFound => numbered "No such file or directory" 2
  | permissionDenied => numbered "Permission denied" 13
  | alreadyExists => numbered "File exists" 17
  | notDirectory => numbered "Not a directory" 20
  | isDirectory => numbered "Is a directory" 21
  | nameTooLong => numbered "File name too long" 36
  | zeroCharacter => "file name contained an unexpected NUL byte"
  | notText => "stream did not contain valid UTF-8"
  | other text => text

end FileFault

end Silhouette
