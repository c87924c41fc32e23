import QueryPipeline.Dialect.Registry
import QueryPipeline.Dispatch
import QueryPipeline.Pipeline.Rendering
import QueryPipeline.Pipeline.Session
import QueryPipeline.Text.JsonText
import QueryPipeline.Proofs.Acceptance
import QueryPipeline.Proofs.Runs
import QueryPipeline.Proofs.Replay
import QueryPipeline.Proofs.Snapshots
import QueryPipeline.Proofs.Branches
import QueryPipeline.Proofs.Logging
import QueryPipeline.Proofs.Dialects
import QueryPipeline.Proofs.Expressions
import QueryPipeline.Proofs.Nodes
import QueryPipeline.Proofs.AliasNames
import QueryPipeline.Proofs.Stored
import QueryPipeline.Proofs.Coverage
import QueryPipeline.Proofs.Phrases
import QueryPipeline.Proofs.Readings
import QueryPipeline.Proofs.Unambiguous
import QueryPipeline.Proofs.Aggregates
import QueryPipeline.Proofs.Operators
import QueryPipeline.Proofs.WiderTypes
import QueryPipeline.Proofs.Widening
import QueryPipeline.Proofs.Renaming
import QueryPipeline.Proofs.Rejections
import QueryPipeline.Proofs.Mentions
import QueryPipeline.Proofs.Substitution
import QueryPipeline.Proofs.Relabelling
import QueryPipeline.Proofs.Extensions
import QueryPipeline.Proofs.OperatorCalls
import QueryPipeline.Proofs.Groupings
import QueryPipeline.Proofs.Declarations
import QueryPipeline.Proofs.Databases
import QueryPipeline.Proofs.Decimals
import QueryPipeline.Proofs.PlainDecimals
import QueryPipeline.Proofs.DoubleTexts
import QueryPipeline.Proofs.DateLiterals
import QueryPipeline.Proofs.Connectives
import QueryPipeline.Proofs.PlainValues
import QueryPipeline.Proofs.Projections
import QueryPipeline.Proofs.Quotations
import QueryPipeline.Proofs.StringValues
import QueryPipeline.Proofs.StringPlaces
