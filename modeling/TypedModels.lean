import TypedModels.Document.JsonText
import TypedModels.Document.YamlText
import TypedModels.Model.Description
import TypedModels.Proofs.Results
import TypedModels.Proofs.Dependency
import TypedModels.Proofs.Session
import TypedModels.Proofs.Compilation
import TypedModels.Proofs.Script
import TypedModels.Proofs.CompiledForm
import TypedModels.Proofs.Closure
import TypedModels.Proofs.Preorder
import TypedModels.Proofs.Operations
import TypedModels.Proofs.History
import TypedModels.Proofs.Coverage
import TypedModels.Proofs.Persistence
import TypedModels.Proofs.Acceptance
import TypedModels.Proofs.Conformance
import TypedModels.Proofs.Construction
import TypedModels.Proofs.Freshness
import TypedModels.Proofs.Reference
import TypedModels.Proofs.Checks
import TypedModels.Proofs.Contract
import TypedModels.Proofs.Blame
import TypedModels.Proofs.Completion
import TypedModels.Proofs.Inspection
import TypedModels.Proofs.Classification
import TypedModels.Proofs.Hydration
import TypedModels.Proofs.Pruning
import TypedModels.Proofs.Encoding
import TypedModels.Proofs.Decoding
import TypedModels.Proofs.Nesting
import TypedModels.Proofs.Printing
import TypedModels.Proofs.Rereading
import TypedModels.Proofs.RoundTrip
import TypedModels.Proofs.Success
import TypedModels.Proofs.Entries
import TypedModels.Proofs.WellTyped
import TypedModels.Proofs.Payload
import TypedModels.Proofs.Collection
import TypedModels.Proofs.Merging
import TypedModels.Proofs.Chains
import TypedModels.Proofs.Resolution
import TypedModels.Proofs.Thread
import TypedModels.Proofs.Tidiness
import TypedModels.Proofs.CallStack
import TypedModels.Proofs.Questions
import TypedModels.Proofs.Lossless
import TypedModels.Proofs.Unneeded
import TypedModels.Proofs.Registration
import TypedModels.Proofs.TypeText
import TypedModels.Proofs.Rendering
import TypedModels.Proofs.Dispatch
import TypedModels.Proofs.Scanning
