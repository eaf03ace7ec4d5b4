import DocumentClient.Data
import DocumentClient.Proofs.Bucket.Codec
import DocumentClient.Proofs.Json.RoundTrip
import DocumentClient.Proofs.Options.Layers
import DocumentClient.Proofs.Options.Merging
import DocumentClient.Proofs.Options.Reference
import DocumentClient.Proofs.Options.Times
import DocumentClient.Proofs.Query.Coverage
import DocumentClient.Proofs.Query.Keywords
import DocumentClient.Proofs.Query.Parameters
import DocumentClient.Proofs.Query.Pulling
import DocumentClient.Proofs.Query.Readers
import DocumentClient.Proofs.Query.Requirement
import DocumentClient.Proofs.Query.Sending
import DocumentClient.Proofs.Query.Setters
import DocumentClient.Proofs.Service.Interleaving
import DocumentClient.Proofs.Session.Deadlines
import DocumentClient.Proofs.Subdocument.Values
import DocumentClient.Proofs.Wire.Messages
import DocumentClient.Proofs.Bucket.Listing
import DocumentClient.Proofs.Subdocument.Presence
import DocumentClient.Proofs.Status.Classification
import DocumentClient.Proofs.Wire.UnknownFields
import DocumentClient.Proofs.Status.Details
import DocumentClient.Proofs.MutationState.Order
import DocumentClient.Proofs.Json.TypedReads
import DocumentClient.Proofs.Subdocument.Counters
import DocumentClient.Proofs.Connection.Endpoint
import DocumentClient.Proofs.Base64
import DocumentClient.Proofs.Connection.Credentials
import DocumentClient.Proofs.Connection.Spelling
import DocumentClient.Proofs.Query.Context
import DocumentClient.Proofs.Connection.Header
