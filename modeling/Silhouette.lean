import Silhouette.Main
import Silhouette.Sample.Kind
import Silhouette.Proofs.CanonicalUnions
import Silhouette.Proofs.ChildrenFirst
import Silhouette.Proofs.Columns
import Silhouette.Proofs.CompleteDeclarations
import Silhouette.Proofs.EmissionFaults
import Silhouette.Proofs.FailedCommands
import Silhouette.Proofs.FirstFault
import Silhouette.Proofs.FreshNames
import Silhouette.Proofs.GroupedUnions
import Silhouette.Proofs.HashedBytes
import Silhouette.Proofs.JoinedRows
import Silhouette.Proofs.LiteralsAsText
import Silhouette.Proofs.MarkerGrammar
import Silhouette.Proofs.MaximalSharing
import Silhouette.Proofs.NeutralBottom
import Silhouette.Proofs.OrderIndependence
import Silhouette.Proofs.PerFileGraphs
import Silhouette.Proofs.Precision
import Silhouette.Proofs.PropertyKeys
import Silhouette.Proofs.PrunedDeclarations
import Silhouette.Proofs.PrunedGraphs
import Silhouette.Proofs.QueryTuples
import Silhouette.Proofs.RepeatedCalls
import Silhouette.Proofs.SeveralAsOne
import Silhouette.Proofs.Soundness
import Silhouette.Proofs.TotalFold
import Silhouette.Proofs.TupleOrder
import Silhouette.Proofs.TwoIndexes
import Silhouette.Proofs.TypeNames
import Silhouette.Proofs.UpperBound
import Silhouette.Proofs.WrittenStructures
import Silhouette.Proofs.Inference.Flattening
