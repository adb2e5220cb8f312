import Mandate.Text.Blank
import Mandate.Text.Decimal
import Mandate.Text.Quoted
import Mandate.Json.Reader
import Mandate.Json.Printer
import Mandate.Expr.Text
import Mandate.Expr.Decoding
import Mandate.Expr.Identity
import Mandate.Text.Split
import Mandate.Fact.Basic
import Mandate.Fact.Json
import Mandate.Validation
import Mandate.Evaluation
import Mandate.Analysis.Reads
import Mandate.Analysis.Skeleton
import Mandate.Scenario
import Mandate.Config.Json
import Mandate.Config.File
import Mandate.Network.Build
import Mandate.Network.Release
import Mandate.Network.Propagation
import Mandate.Engine.Activation
import Mandate.Engine.View
import Mandate.Console
import Mandate.Service.Timeline
import Mandate.Proofs.Json.Scanning
import Mandate.Proofs.Json.Reading
import Mandate.Proofs.Json.Decoding
import Mandate.Proofs.Json.Spelling
import Mandate.Proofs.Expr.RoundTrip
import Mandate.Proofs.Expr.Spelling
import Mandate.Proofs.Network.Nodes
import Mandate.Proofs.Network.Soundness
import Mandate.Proofs.Network.Ownership
import Mandate.Proofs.Network.Unfolding
import Mandate.Proofs.Network.Lowering
import Mandate.Proofs.Network.Building
import Mandate.Proofs.Network.Releasing
import Mandate.Proofs.Network.Supplying
import Mandate.Proofs.Network.Propagation
import Mandate.Proofs.Engine.Coherence
import Mandate.Proofs.Engine.Registration
import Mandate.Proofs.Engine.News
import Mandate.Proofs.Engine.Run
import Mandate.Proofs.Engine.Meaning
import Mandate.Proofs.Engine.Settlement
import Mandate.Proofs.Engine.Subscription
import Mandate.Proofs.Network.Stamps
import Mandate.Proofs.Engine.Outcomes
import Mandate.Proofs.Engine.Inputs
import Mandate.Proofs.Engine.Rooted
import Mandate.Proofs.Engine.Failure
import Mandate.Proofs.Engine.Generations
import Mandate.Proofs.Engine.Pulling
import Mandate.Proofs.Engine.Overlap
import Mandate.Proofs.Engine.Records
import Mandate.Proofs.Engine.Chronicle
import Mandate.Proofs.Engine.History
import Mandate.Proofs.Engine.Isolation
import Mandate.Proofs.Engine.Agreement
import Mandate.Proofs.Service.Stages
import Mandate.Proofs.Service.Interleaving
import Mandate.Proofs.Service.Convergence
import Mandate.Proofs.Service.Scheduling
import Mandate.Proofs.Network.Admissible
import Mandate.Proofs.Service.Passages
import Mandate.Proofs.Service.Replies
import Mandate.Proofs.Service.Traffic
import Mandate.Proofs.Service.Outcomes
import Mandate.Proofs.Engine.Snapshots
import Mandate.Proofs.Service.Publishing
import Mandate.Proofs.Service.Timelines
import Mandate.Proofs.Network.Ledger
import Mandate.Proofs.Network.Sizes
import Mandate.Proofs.Network.Room
import Mandate.Proofs.Network.Uncounted
import Mandate.Proofs.Network.Collecting
import Mandate.Proofs.Network.Turns
import Mandate.Proofs.Engine.Batching
import Mandate.Proofs.Engine.Collision
import Mandate.Proofs.Service.Listening
import Mandate.Proofs.Identifier
import Mandate.Proofs.Validation.Places
import Mandate.Proofs.Validation.Rules
import Mandate.Proofs.Validation.Walking
import Mandate.Proofs.Validation.Admission
import Mandate.Proofs.Validation.Reporting
import Mandate.Proofs.Engine.Exactness
import Mandate.Proofs.Analysis.Conjuncts
import Mandate.Proofs.Engine.Resolving
import Mandate.Proofs.Fact.Names
import Mandate.Proofs.Admission
import Mandate.Proofs.Analysis.Reading
import Mandate.Proofs.Engine.Sufficiency
import Mandate.Proofs.Network.Lagging
import Mandate.Proofs.Provider.Watching
import Mandate.Proofs.Provider.Delivering
import Mandate.Proofs.Text.Phrases
import Mandate.Proofs.Expr.Display
import Mandate.Proofs.Engine.Identities
import Mandate.Proofs.Network.Strict
import Mandate.Proofs.Network.Heights
import Mandate.Proofs.Network.Intact
import Mandate.Proofs.Network.Walking
import Mandate.Proofs.Engine.Bounds
import Mandate.Proofs.Network.Surplus
import Mandate.Proofs.Expr.Folding
import Mandate.Proofs.Network.Calm
import Mandate.Proofs.Network.Placing
import Mandate.Proofs.Network.Constants
