import RigNodes.Main
import RigNodes.Document.Sample
import RigNodes.Resolver.History
import RigNodes.Resolver.Trace
import RigNodes.Proofs.Agreement
import RigNodes.Proofs.OrderIndependence
import RigNodes.Proofs.Reprocessing
import RigNodes.Proofs.Stops
import RigNodes.Proofs.Coverage
import RigNodes.Proofs.LegacyOption.Runs
import RigNodes.Proofs.LegacyOrder
import RigNodes.Proofs.Modularity
import RigNodes.Proofs.Dormancy
import RigNodes.Proofs.ErrorCount
import RigNodes.Proofs.Accounting
import RigNodes.Proofs.Addressing
import RigNodes.Proofs.Renaming.Runs
import RigNodes.Proofs.Table.Consistency
import RigNodes.Proofs.SelfReferences.Counts
import RigNodes.Proofs.CommandLine
import RigNodes.Proofs.Layout.Rings
import RigNodes.Proofs.OutOfSequence.Chronicle
import RigNodes.Proofs.Ranges
import RigNodes.Proofs.Attribution
import RigNodes.Proofs.TextDump
import RigNodes.Proofs.Quotation
import RigNodes.Proofs.Walk.Traversal
import RigNodes.Proofs.ReportLines
