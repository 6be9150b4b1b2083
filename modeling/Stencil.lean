import Stencil.Stock
import Stencil.Proofs.Scan.Step
import Stencil.Proofs.Scan.Trace
import Stencil.Proofs.Scan.Reading
import Stencil.Proofs.Scan.Lossless
import Stencil.Proofs.Scan.Slice
import Stencil.Proofs.Scan.Lines
import Stencil.Proofs.Library.Growth
import Stencil.Proofs.Assembly.Structure
import Stencil.Proofs.Assembly.Take
import Stencil.Proofs.Assembly.Run
import Stencil.Proofs.Library.Load
import Stencil.Proofs.Assembly.Recompile
import Stencil.Proofs.Library.Closure
import Stencil.Proofs.Output.Plain
import Stencil.Proofs.Output.Tame
import Stencil.Proofs.Output.Escaping
import Stencil.Proofs.Library.Atomicity
import Stencil.Proofs.Output.Isolation
import Stencil.Proofs.Assembly.Nesting
import Stencil.Proofs.Assembly.Advance
import Stencil.Proofs.Assembly.Acceptance
import Stencil.Proofs.Assembly.Walk
import Stencil.Proofs.Document.Isomorphism
import Stencil.Proofs.Library.Ownership
import Stencil.Proofs.Assembly.Determinism
import Stencil.Proofs.Assembly.Lockstep
import Stencil.Proofs.Library.Agreement
import Stencil.Proofs.Library.Entries
import Stencil.Proofs.Library.History
import Stencil.Proofs.Library.Termination
import Stencil.Proofs.Library.Blame
import Stencil.Proofs.Expression.Layout
import Stencil.Proofs.Expression.Reading
import Stencil.Proofs.Inheritance.Blocks
import Stencil.Proofs.Inheritance.Resolution
import Stencil.Proofs.Inheritance.Nesting
import Stencil.Proofs.Context.Histories
import Stencil.Proofs.Output.Brackets
import Stencil.Proofs.Output.Faults
import Stencil.Proofs.Output.Settling
import Stencil.Proofs.Library.Rendering
import Stencil.Proofs.Scan.Search
import Stencil.Proofs.Output.Templates
import Stencil.Proofs.Output.Wrapping
import Stencil.Proofs.Output.Transparency
import Stencil.Proofs.Scan.Progress
import Stencil.Proofs.Scan.Stopping
import Stencil.Proofs.Scan.Appending
import Stencil.Proofs.Library.Appending
import Stencil.Proofs.Library.ContentTypes
import Stencil.Proofs.Path.Resolution
import Stencil.Proofs.Output.Iteration
import Stencil.Proofs.Output.Overriding
import Stencil.Proofs.Output.Positions
import Stencil.Proofs.Library.Comments
import Stencil.Proofs.Value.Equality
import Stencil.Proofs.Output.EscapeFilter
import Stencil.Proofs.Output.Entities
