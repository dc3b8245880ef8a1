import ProgramAnalysis.Options.Load
import ProgramAnalysis.Program.Load
import ProgramAnalysis.Proofs.CallGraph.Policy
import ProgramAnalysis.Proofs.CallGraph.Precision
import ProgramAnalysis.Proofs.CallGraph.Search
import ProgramAnalysis.Proofs.Context.Agreement
import ProgramAnalysis.Proofs.Context.Failure
import ProgramAnalysis.Proofs.Context.Kinds
import ProgramAnalysis.Proofs.Context.Least
import ProgramAnalysis.Proofs.Datalog.Header
import ProgramAnalysis.Proofs.Dependents
import ProgramAnalysis.Proofs.Domain.Failure
import ProgramAnalysis.Proofs.Escape.Coverage
import ProgramAnalysis.Proofs.Escape.Report
import ProgramAnalysis.Proofs.Facts.Completeness
import ProgramAnalysis.Proofs.Graph.Agreement
import ProgramAnalysis.Proofs.Program
import ProgramAnalysis.Proofs.Session.Facts
import ProgramAnalysis.Proofs.Session.Nesting
import ProgramAnalysis.Proofs.Session.Orders
import ProgramAnalysis.Proofs.Session.Rounds
import ProgramAnalysis.Proofs.Text.Markup
import ProgramAnalysis.Proofs.Trace.Buffering
import ProgramAnalysis.Proofs.Trace.Frames
import ProgramAnalysis.Proofs.Trace.Recording
import ProgramAnalysis.Registry
import ProgramAnalysis.Trace.Tracer
