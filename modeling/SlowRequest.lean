import SlowRequest.Diagnosis.RuleSet
import SlowRequest.Occurrence.Collect
import SlowRequest.Schema.Occurrences
import SlowRequest.Results.Happening
import SlowRequest.Service.Desk
import SlowRequest.Service.Start
import SlowRequest.Schema.Services
import SlowRequest.Trace.File
import SlowRequest.Toml.Reader
import SlowRequest.Config.File
import SlowRequest.Log.Retention
import SlowRequest.Log.Filter
import SlowRequest.Main
import SlowRequest.Proofs.Clustering.Completion
import SlowRequest.Proofs.Clustering.Failures
import SlowRequest.Proofs.Diagnosis.Hierarchy
import SlowRequest.Proofs.Engine.Registration
import SlowRequest.Proofs.Engine.Reuse
import SlowRequest.Proofs.Service.Delivery
import SlowRequest.Proofs.Engine.Activation
import SlowRequest.Proofs.Engine.Interruption
import SlowRequest.Proofs.Engine.Depth
import SlowRequest.Proofs.Engine.Trail
import SlowRequest.Proofs.Engine.Coverage
import SlowRequest.Proofs.Engine.Embedding
import SlowRequest.Proofs.Engine.Reordering
import SlowRequest.Proofs.Engine.Thinning
import SlowRequest.Proofs.Engine.Insertion
import SlowRequest.Proofs.CallTree.Renaming
import SlowRequest.Proofs.Engine.Translation
import SlowRequest.Proofs.Service.Sequence
import SlowRequest.Proofs.Diagnosis.Renaming
import SlowRequest.Proofs.Json.Numerals
import SlowRequest.Proofs.Json.Strings
import SlowRequest.Proofs.Json.Records
import SlowRequest.Proofs.Schema.Occurrences
import SlowRequest.Proofs.Occurrence.Numbering
import SlowRequest.Proofs.Results.Keeping
import SlowRequest.Proofs.Service.Course
import SlowRequest.Proofs.Service.Findings
import SlowRequest.Proofs.Service.Harvest
import SlowRequest.Proofs.Service.Serving
import SlowRequest.Proofs.Json.Yields
import SlowRequest.Proofs.Service.Settling
import SlowRequest.Proofs.Trace.Growth
import SlowRequest.Proofs.Trace.Names
import SlowRequest.Proofs.Program.Loading
import SlowRequest.Proofs.Program.Run
import SlowRequest.Proofs.Diagnosis.Nesting
import SlowRequest.Proofs.Diagnosis.LoneStatement
import SlowRequest.Proofs.Diagnosis.StatementQueue
import SlowRequest.Proofs.Diagnosis.UntimedCalls
import SlowRequest.Proofs.Diagnosis.CountedCalls
import SlowRequest.Proofs.Diagnosis.FrequentOperations
import SlowRequest.Proofs.Clustering.Blocks
import SlowRequest.Proofs.Clustering.RoundLimit
import SlowRequest.Proofs.Clustering.Spacing
import SlowRequest.Proofs.Diagnosis.Descent
import SlowRequest.Proofs.Engine.EarliestOrder
import SlowRequest.Proofs.Engine.Anchoring
import SlowRequest.Proofs.Engine.WellFormed
import SlowRequest.Proofs.Results.Recency
import SlowRequest.Proofs.Results.FirstOccurrence
import SlowRequest.Proofs.Diagnosis.Partition
import SlowRequest.Proofs.CallTree.Building
import SlowRequest.Proofs.CallTree.Traversal
import SlowRequest.Proofs.Trace.Layout
import SlowRequest.Proofs.Log.Retention
