import SearchBody.Json.Reading
import SearchBody.Node.Equality
import SearchBody.Script
import SearchBody.Query
import SearchBody.Config.File
import SearchBody.Proofs.Path
import SearchBody.Proofs.Call
import SearchBody.Proofs.Tree
import SearchBody.Proofs.Reachable
import SearchBody.Proofs.SectionSpelling
import SearchBody.Proofs.Recovery
import SearchBody.Proofs.Mirror
import SearchBody.Proofs.Filing
import SearchBody.Proofs.Refusal
import SearchBody.Proofs.Written
import SearchBody.Proofs.LastWrite
import SearchBody.Proofs.RequestRun
import SearchBody.Proofs.Conservation
import SearchBody.Proofs.Preorder
import SearchBody.Proofs.Restoration
import SearchBody.Proofs.BulkAttachment
import SearchBody.Proofs.NamedFilters
import SearchBody.Proofs.DeepEdit
import SearchBody.Proofs.Parameters
import SearchBody.Proofs.Clauses
import SearchBody.Proofs.Rounding
import SearchBody.Proofs.Literal
import SearchBody.Proofs.RoundTrip
import SearchBody.Proofs.KeyOrder
import SearchBody.Proofs.Canonical
import SearchBody.Proofs.Collision
import SearchBody.Proofs.Congruence
import SearchBody.Proofs.Places
import SearchBody.Proofs.Saving
import SearchBody.Proofs.Decoding
import SearchBody.Proofs.Slots
