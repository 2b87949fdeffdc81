import Silhouette.Declaration.Emitter
import Silhouette.Files.Fault
import Silhouette.Files.Glob.Expansion
import Silhouette.Inference.Error
import Silhouette.Settings.Basic

/-!
# Why a command fails

A command goes through settings, input, inference, declarations and output, and what goes wrong in
one of them is an error with the file, pattern or name at hand.  `CommandError.message` tells it
from the outside in, with a colon between any two layers.
-/

set_option autoImplicit false

namespace Silhouette

/-- Why a command fails. -/
inductive CommandError where
  | unreadableSettings (file : String) (fault : FileFault)
  | badSettings (file : String) (error : SettingsError)
  /-- The settings can be read but do not make options. -/
  | badOptions (error : SettingsError)
  | badPattern (pattern : String) (fault : Glob.Fault)
  | nothingMatches (pattern : String)
  /-- A directory that a pattern leads through cannot be read. -/
  | unlisted (directory : String) (fault : FileFault)
  | unreadableInput (fault : FileFault)
  | unreadable (path : String) (fault : FileFault)
  /-- A text is not JSON: all of a source, or one of its lines. -/
  | unparsable (source : String) (line? : Option Nat) (text : String) (fault : Json.Fault)
  | nothingSelected (pointer source : String)
  | inference (name : String) (error : InferenceError)
  | emission (name : String) (error : EmitError)
  | uncreatable (directory : String) (fault : FileFault)
  | unwritable (path : String) (fault : FileFault)

namespace CommandError

/-- The layers of an error, from the outside in. -/
def layers : CommandError → List String
  | unreadableSettings file fault =>
    ["loading " ++ file, (SettingsError.unreadable file).message, fault.message]
  | badSettings file error => ["loading " ++ file, error.message]
  | badOptions error => [error.message]
  | badPattern pattern fault => ["bad glob pattern " ++ pattern, fault.message]
  | nothingMatches pattern => ["glob pattern matched no files", pattern]
  | unlisted directory fault =>
    ["attempting to read `" ++ directory ++ "` resulted in an error: " ++ fault.message]
  | unreadableInput fault => ["reading stdin", fault.message]
  | unreadable path fault => ["failed to read " ++ path, fault.message]
  | unparsable source none text fault => ["failed to parse " ++ source, fault.message text]
  | unparsable source (some line) text fault =>
    ["failed to parse " ++ source ++ " line " ++ toString line, fault.message text]
  | nothingSelected pointer source =>
    ["JSON pointer " ++ pointer ++ " selects nothing in " ++ source]
  | inference name error => ["inferring `" ++ name ++ "`", error.message]
  | emission name error => ["emitting `" ++ name ++ "`", error.message]
  | uncreatable directory fault => ["creating " ++ directory, fault.message]
  | unwritable path fault => ["writing " ++ path, fault.message]

def message (e : CommandError) : String := ": ".intercalate e.layers

end CommandError

end Silhouette
