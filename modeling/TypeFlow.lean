import TypeFlow.Check.Unit
import TypeFlow.Intern.Words
import TypeFlow.Report
import TypeFlow.Syntax.Layout
import TypeFlow.Proofs.Check.ErrorFree
import TypeFlow.Proofs.Check.Implementors
import TypeFlow.Proofs.Check.Policies
import TypeFlow.Proofs.Check.Aborting
import TypeFlow.Proofs.Check.AliasOrder
import TypeFlow.Proofs.Check.Constants
import TypeFlow.Proofs.Check.Sites
import TypeFlow.Proofs.Check.InDomains
import TypeFlow.Proofs.Check.WellFormed
import TypeFlow.Proofs.Flow.Agreement
import TypeFlow.Proofs.Flow.Complement
import TypeFlow.Proofs.Infer.Literals
import TypeFlow.Proofs.Infer.Locality
import TypeFlow.Proofs.Infer.LoopScan
import TypeFlow.Proofs.Infer.Narrowing
import TypeFlow.Proofs.Infer.NormalForm
import TypeFlow.Proofs.Check.Annotations
import TypeFlow.Proofs.Check.Arms
import TypeFlow.Proofs.Check.Defaults
import TypeFlow.Proofs.Check.Guards
import TypeFlow.Proofs.Check.Receivers
import TypeFlow.Proofs.Check.Reporting
import TypeFlow.Proofs.Check.Untyped
import TypeFlow.Proofs.Diagnostic.Vouching
import TypeFlow.Proofs.Intern.Substitution
import TypeFlow.Proofs.Intern.Types
import TypeFlow.Proofs.Intern.Words
import TypeFlow.Proofs.Solve.Applied
import TypeFlow.Proofs.Solve.Order
import TypeFlow.Proofs.Solve.Recovery
import TypeFlow.Proofs.Typing.Chains
import TypeFlow.Proofs.Typing.LeastBound
import TypeFlow.Proofs.Typing.Obtained
import TypeFlow.Proofs.Check.Shadowing
