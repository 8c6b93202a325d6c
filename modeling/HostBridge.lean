import HostBridge.Main
import HostBridge.Proofs.Session.Conservation
import HostBridge.Proofs.Session.Scope
import HostBridge.Proofs.Report.Submission
import HostBridge.Proofs.Session.History
import HostBridge.Proofs.Session.Tree
import HostBridge.Proofs.FrontEnd.Idle
import HostBridge.Proofs.Session.Cancellation
import HostBridge.Proofs.Session.Obliging
import HostBridge.Proofs.Session.Retry
import HostBridge.Proofs.Binding.Registration
import HostBridge.Proofs.Session.Clean
import HostBridge.Proofs.Session.Interleaving
import HostBridge.Proofs.Dump.Order
import HostBridge.Proofs.FrontEnd.Raising
import HostBridge.Proofs.Declaration.Checks
import HostBridge.Proofs.Session.Repetition
import HostBridge.Proofs.Session.Tasks
import HostBridge.Proofs.FrontEnd.Granularity
import HostBridge.Proofs.Binding.ByProducts
import HostBridge.Proofs.Binding.DefaultPackage
import HostBridge.Proofs.Session.Comments
import HostBridge.Proofs.Binding.Ownership
import HostBridge.Proofs.Declaration.Overloads
import HostBridge.Proofs.Task.Markers
import HostBridge.Proofs.TypeReference.Signature
import HostBridge.Proofs.TypeReference.WellFormed
import HostBridge.Proofs.TypeReference.Defects
import HostBridge.Proofs.Task.Overlap
import HostBridge.Proofs.Problem.Columns
import HostBridge.Proofs.Problem.Resumption
import HostBridge.Proofs.Declaration.Arities
import HostBridge.Proofs.Position
import HostBridge.Proofs.TypeReference.Ranges
import HostBridge.Proofs.Declaration.Emitted
import HostBridge.Proofs.Declaration.Positions
import HostBridge.Proofs.Declaration.VarArgs
import HostBridge.Proofs.Task.Containment
import HostBridge.Proofs.TypeReference.Tokens
import HostBridge.Proofs.Declaration.Imports
import HostBridge.Proofs.Annotation.ClassLiteral
import HostBridge.Proofs.Task.ChainEnds
import HostBridge.Proofs.Packing
