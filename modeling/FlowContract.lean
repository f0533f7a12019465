import FlowContract.Editor.Session
import FlowContract.Main
import FlowContract.Proofs.Definitions.Agreement
import FlowContract.Proofs.Definitions.Refusals
import FlowContract.Proofs.Definitions.RoundTrip
import FlowContract.Proofs.Editor.Coherence
import FlowContract.Proofs.Editor.LoadOrder
import FlowContract.Proofs.Shape.Meaning
import FlowContract.SortedMap.Lookup
import FlowContract.Proofs.Definitions.Kinds
import FlowContract.Proofs.Definitions.Diagnosis
import FlowContract.Proofs.Definitions.Pointwise
import FlowContract.Proofs.Definitions.Revisions
import FlowContract.Proofs.Definitions.Coverage
import FlowContract.Proofs.Definitions.EqualDocuments
import FlowContract.Proofs.Editor.Publishing
import FlowContract.Proofs.Editor.Separation
import FlowContract.Proofs.Definitions.Placement
import FlowContract.Proofs.Json.Replacement
import FlowContract.Proofs.Shape.Closedness
import FlowContract.Proofs.Shape.Unions
import FlowContract.Proofs.Definitions.Closedness
import FlowContract.Proofs.Definitions.Sources
import FlowContract.Proofs.Workflow.Preorder
import FlowContract.Proofs.Shape.Loosening
import FlowContract.Proofs.Workflow.NormalForm
import FlowContract.Proofs.Definitions.Accessors
import FlowContract.Proofs.Definitions.Fragments
import FlowContract.Proofs.Config.KnownFields
import FlowContract.Proofs.Config.RoundTrip
import FlowContract.Proofs.CommandLine.Verdict
import FlowContract.Proofs.Description
import FlowContract.Proofs.Path
