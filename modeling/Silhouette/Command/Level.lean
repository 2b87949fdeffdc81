/-!
# How much is logged

The level follows from how often more was asked for and whether only errors were; the latter wins.
-/

set_option autoImplicit false

namespace Silhouette

/-- How much is logged. -/
inductive Level where
  | error
  | info
  | debug
  | trace
deriving DecidableEq, Repr

namespace Level

def name : Level → String
  | error => "ERROR"
  | info => "INFO"
  | debug => "DEBUG"
  | trace => "TRACE"

/-- The level for a number of requests for more, and a request for errors only. -/
def ofFlags (verbose : Nat) (quiet : Bool) : Level :=
  if quiet then error
  else
    match verbose with
    | 0 => info
    | 1 => debug
    | _ => trace

end Level

end Silhouette
