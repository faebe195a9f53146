import GraphSchema.Call.Arguments
import GraphSchema.Call.Session
import GraphSchema.Store.Class
import GraphSchema.Value.Making
import GraphSchema.Package.Metadata
import GraphSchema.Package.Task
import GraphSchema.Proofs.Auth.Requested
import GraphSchema.Proofs.Field.Fluent
import GraphSchema.Proofs.Field.Valid
import GraphSchema.Proofs.Field.Listing
import GraphSchema.Proofs.Field.Rendering
import GraphSchema.Proofs.Field.Frame
import GraphSchema.Proofs.Definition.Conformance
import GraphSchema.Proofs.Constant.Literal
import GraphSchema.Proofs.Course.Atomic
import GraphSchema.Proofs.Registry.Ledger
import GraphSchema.Proofs.Decoding.Field
import GraphSchema.Proofs.Printing.Schema
import GraphSchema.Proofs.Enum.Bare
import GraphSchema.Proofs.Definition.Conflict
import GraphSchema.Proofs.Definition.Agreement
import GraphSchema.Proofs.Name.Used
import GraphSchema.Proofs.Printing.Items
import GraphSchema.Proofs.Printing.Snapshot
import GraphSchema.Proofs.Enum.Registered
import GraphSchema.Proofs.Definition.Order
import GraphSchema.Proofs.Field.Scope
import GraphSchema.Proofs.Auth.Script
import GraphSchema.Proofs.Field.Greenwich
import GraphSchema.Proofs.Name.Refused
import GraphSchema.Proofs.Decoding.Policy
import GraphSchema.Proofs.Enum.Legal
import GraphSchema.Proofs.Package.Lines
import GraphSchema.Proofs.Package.Version
import GraphSchema.Proofs.Package.Requirements
import GraphSchema.Proofs.Package.Command
import GraphSchema.Proofs.Quoted.Json
