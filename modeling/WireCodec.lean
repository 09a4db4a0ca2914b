import WireCodec.Config
import WireCodec.Session
import WireCodec.Proofs.Blob
import WireCodec.Proofs.Blob.Wrapped
import WireCodec.Proofs.Shape
import WireCodec.Proofs.EventGuid.Outcome
import WireCodec.Proofs.EventGuid.RoundTrip
import WireCodec.Proofs.RequiredField
import WireCodec.Proofs.EventGuid.Verdict
import WireCodec.Proofs.EventGuid.Rearrangement
import WireCodec.Proofs.Json.Quoted
import WireCodec.Proofs.U64.Raw
import WireCodec.Proofs.Blob.RoundTrip
import WireCodec.Proofs.Hash
import WireCodec.Proofs.Item
import WireCodec.Proofs.Identity
import WireCodec.Proofs.Binary64
import WireCodec.Proofs.U64.Range
import WireCodec.Proofs.U64.LowerBound
import WireCodec.Proofs.Session
import WireCodec.Proofs.Address.Texts
import WireCodec.Proofs.FieldPath
import WireCodec.Proofs.Binary64.Rounding
import WireCodec.Proofs.Binary64.Nearest
import WireCodec.Proofs.U64.Readings
import WireCodec.Proofs.Address.Bytes
import WireCodec.Proofs.Hex.Verdict
import WireCodec.Proofs.Blob.Logging
import WireCodec.Proofs.Config
import WireCodec.Proofs.Base64.Clearing
