import CheckedPointers.Analysis
import CheckedPointers.Anchor
import CheckedPointers.CType.Basic
import CheckedPointers.CType.Equality
import CheckedPointers.Category
import CheckedPointers.Command.Arguments
import CheckedPointers.Command.Run
import CheckedPointers.Command.UnitFile
import CheckedPointers.Constraint.Solution
import CheckedPointers.Constraint.System
import CheckedPointers.Fault
import CheckedPointers.Format.AssignmentFormat
import CheckedPointers.Format.OptionsFormat
import CheckedPointers.Format.TypeFormat
import CheckedPointers.Format.UnitFormat
import CheckedPointers.Json.Basic
import CheckedPointers.Json.Fields
import CheckedPointers.Json.Number
import CheckedPointers.Json.Reader
import CheckedPointers.Json.Writer
import CheckedPointers.LogFormat
import CheckedPointers.Main
import CheckedPointers.Options
import CheckedPointers.OrderedMap
import CheckedPointers.Pairing
import CheckedPointers.Proofs.Analysis.Agreement
import CheckedPointers.Proofs.Analysis.Bound
import CheckedPointers.Proofs.Analysis.Convergence
import CheckedPointers.Proofs.Analysis.Exactness
import CheckedPointers.Proofs.Analysis.Levels
import CheckedPointers.Proofs.Analysis.Macros
import CheckedPointers.Proofs.Analysis.OwnDeclarations
import CheckedPointers.Proofs.Analysis.Phases
import CheckedPointers.Proofs.Analysis.Progress
import CheckedPointers.Proofs.Analysis.Regrouping
import CheckedPointers.Proofs.Analysis.Reordering
import CheckedPointers.Proofs.Analysis.Rest
import CheckedPointers.Proofs.Analysis.Rewording
import CheckedPointers.Proofs.Analysis.Seating
import CheckedPointers.Proofs.Analysis.Selection
import CheckedPointers.Proofs.Analysis.Subscripts
import CheckedPointers.Proofs.Analysis.Transfers
import CheckedPointers.Proofs.Analysis.Typedefs
import CheckedPointers.Proofs.Analysis.UnitOrder
import CheckedPointers.Proofs.Analysis.Unresolved
import CheckedPointers.Proofs.Analysis.Wrappers
import CheckedPointers.Proofs.CType.Compatibility
import CheckedPointers.Proofs.CType.Erasure
import CheckedPointers.Proofs.Constraint.Classes
import CheckedPointers.Proofs.Constraint.History
import CheckedPointers.Proofs.Constraint.LeastSolution
import CheckedPointers.Proofs.Format.Types
import CheckedPointers.Proofs.Format.Units
import CheckedPointers.Proofs.Json.Layout
import CheckedPointers.Proofs.Json.Literals
import CheckedPointers.Proofs.Session.Allocations
import CheckedPointers.Proofs.Session.Answers
import CheckedPointers.Proofs.Session.Apartness
import CheckedPointers.Proofs.Session.Arity
import CheckedPointers.Proofs.Session.Below
import CheckedPointers.Proofs.Session.Blocks
import CheckedPointers.Proofs.Session.Bodies
import CheckedPointers.Proofs.Session.Building
import CheckedPointers.Proofs.Session.Calls
import CheckedPointers.Proofs.Session.Chaining
import CheckedPointers.Proofs.Session.Changes
import CheckedPointers.Proofs.Session.Completion
import CheckedPointers.Proofs.Session.Creation
import CheckedPointers.Proofs.Session.Declaring
import CheckedPointers.Proofs.Session.Demands
import CheckedPointers.Proofs.Session.Denotation
import CheckedPointers.Proofs.Session.Depth
import CheckedPointers.Proofs.Session.Echo
import CheckedPointers.Proofs.Session.EchoedDenotation
import CheckedPointers.Proofs.Session.EchoedFlow
import CheckedPointers.Proofs.Session.EchoedIndexing
import CheckedPointers.Proofs.Session.EchoedRounds
import CheckedPointers.Proofs.Session.Embedding
import CheckedPointers.Proofs.Session.Equating
import CheckedPointers.Proofs.Session.Equations
import CheckedPointers.Proofs.Session.Failure
import CheckedPointers.Proofs.Session.Faithful
import CheckedPointers.Proofs.Session.FirstWriter
import CheckedPointers.Proofs.Session.Flow
import CheckedPointers.Proofs.Session.Hops
import CheckedPointers.Proofs.Session.Indexing
import CheckedPointers.Proofs.Session.Indirection
import CheckedPointers.Proofs.Session.Integrity
import CheckedPointers.Proofs.Session.Keeping
import CheckedPointers.Proofs.Session.Leaving
import CheckedPointers.Proofs.Session.Ledger
import CheckedPointers.Proofs.Session.Linking
import CheckedPointers.Proofs.Session.Looking
import CheckedPointers.Proofs.Session.Matching
import CheckedPointers.Proofs.Session.Merging
import CheckedPointers.Proofs.Session.MirroredCreation
import CheckedPointers.Proofs.Session.MirroredDenotation
import CheckedPointers.Proofs.Session.MirroredFlow
import CheckedPointers.Proofs.Session.MirroredUnits
import CheckedPointers.Proofs.Session.Mirroring
import CheckedPointers.Proofs.Session.Naming
import CheckedPointers.Proofs.Session.Order
import CheckedPointers.Proofs.Session.Origins
import CheckedPointers.Proofs.Session.Outcome
import CheckedPointers.Proofs.Session.Parting
import CheckedPointers.Proofs.Session.Placements
import CheckedPointers.Proofs.Session.Placing
import CheckedPointers.Proofs.Session.Progress
import CheckedPointers.Proofs.Session.Recall
import CheckedPointers.Proofs.Session.Recording
import CheckedPointers.Proofs.Session.Relinking
import CheckedPointers.Proofs.Session.Repair
import CheckedPointers.Proofs.Session.Requests
import CheckedPointers.Proofs.Session.Rounds
import CheckedPointers.Proofs.Session.Settling
import CheckedPointers.Proofs.Session.Sharing
import CheckedPointers.Proofs.Session.Signatures
import CheckedPointers.Proofs.Session.Sites
import CheckedPointers.Proofs.Session.Skeleton
import CheckedPointers.Proofs.Session.Sources
import CheckedPointers.Proofs.Session.Sparing
import CheckedPointers.Proofs.Session.Spread
import CheckedPointers.Proofs.Session.Stability
import CheckedPointers.Proofs.Session.Standing
import CheckedPointers.Proofs.Session.Staying
import CheckedPointers.Proofs.Session.Stepping
import CheckedPointers.Proofs.Session.Steps
import CheckedPointers.Proofs.Session.Targetless
import CheckedPointers.Proofs.Session.Transfer
import CheckedPointers.Proofs.Session.Visiting
import CheckedPointers.Proofs.Session.Walk
import CheckedPointers.Proofs.Source.Anchors
import CheckedPointers.Proofs.Source.Closed
import CheckedPointers.Proofs.Source.Coherence
import CheckedPointers.Proofs.Source.Depth
import CheckedPointers.Proofs.Source.Drafting
import CheckedPointers.Proofs.Source.Forest
import CheckedPointers.Proofs.Source.Listing
import CheckedPointers.Proofs.Source.Regrouping
import CheckedPointers.Proofs.Source.Reordering
import CheckedPointers.Proofs.Source.Rewording
import CheckedPointers.Proofs.Source.Wrapping
import CheckedPointers.Proofs.Variable.Arena
import CheckedPointers.Proofs.Variable.Bridging
import CheckedPointers.Proofs.Variable.Coincidence
import CheckedPointers.Proofs.Variable.Ownership
import CheckedPointers.Proofs.Variable.Shape
import CheckedPointers.Proofs.Variable.Spelling
import CheckedPointers.Proofs.Variable.Symmetry
import CheckedPointers.Session.Basic
import CheckedPointers.Session.Bounds
import CheckedPointers.Session.Candidates
import CheckedPointers.Session.Declare
import CheckedPointers.Session.Denotation.Decl
import CheckedPointers.Session.Denotation.Expr
import CheckedPointers.Session.Flow
import CheckedPointers.Session.Linking
import CheckedPointers.Session.Repair
import CheckedPointers.Session.Snapshot
import CheckedPointers.Source.Closed
import CheckedPointers.Source.Decl
import CheckedPointers.Source.Draft
import CheckedPointers.Source.Expr
import CheckedPointers.Source.Unit
import CheckedPointers.VarSet
import CheckedPointers.Variable.Basic
import CheckedPointers.Variable.Ownership
import CheckedPointers.Variable.Report
