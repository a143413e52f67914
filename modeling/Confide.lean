import Confide.Address
import Confide.Archive
import Confide.Bytes
import Confide.Bytes.Hex
import Confide.Bytes.Utf8
import Confide.Cipher.ChaCha
import Confide.Cipher.Poly1305
import Confide.Cipher.Sealing
import Confide.Config
import Confide.Connection.Attempt
import Confide.Connection.Candidate
import Confide.Connection.Config
import Confide.Connection.Frame
import Confide.Connection.Negotiation
import Confide.Connection.State
import Confide.Curve.Edwards
import Confide.Curve.Field
import Confide.Curve.Montgomery
import Confide.Decimal.Binary64
import Confide.Decimal.Shortest
import Confide.Digest.Hkdf
import Confide.Digest.Sha256
import Confide.Digest.Sha512
import Confide.Directory
import Confide.Duration
import Confide.Entropy
import Confide.Entropy.KeyStream
import Confide.Failure
import Confide.Group.Message
import Confide.Group.State
import Confide.Handshake
import Confide.Identity
import Confide.Json.Tree
import Confide.Json.Value
import Confide.Keys
import Confide.Messaging.Error
import Confide.Messaging.Event
import Confide.Messaging.Messenger
import Confide.Messaging.Payload
import Confide.Names
import Confide.Prekey.Bundle
import Confide.Prekey.Lifetime
import Confide.Prekey.Store
import Confide.Proofs.Address
import Confide.Proofs.Archive
import Confide.Proofs.Backoff
import Confide.Proofs.Binding
import Confide.Proofs.Cipher.Sealing
import Confide.Proofs.Digits
import Confide.Proofs.Directory
import Confide.Proofs.Directory.Draining
import Confide.Proofs.Group.Agreement
import Confide.Proofs.Group.Chains
import Confide.Proofs.Group.Change
import Confide.Proofs.Group.Counting
import Confide.Proofs.Group.Delivery
import Confide.Proofs.Group.Epochs
import Confide.Proofs.Group.Eviction
import Confide.Proofs.Group.Grace
import Confide.Proofs.Group.Integrity
import Confide.Proofs.Group.Membership
import Confide.Proofs.Group.Numbering
import Confide.Proofs.Group.Opening
import Confide.Proofs.Group.Replay
import Confide.Proofs.Group.Steps
import Confide.Proofs.Handshake
import Confide.Proofs.Hex
import Confide.Proofs.Identity
import Confide.Proofs.Identity.Order
import Confide.Proofs.Json.Text
import Confide.Proofs.Json.Value
import Confide.Proofs.Negotiation
import Confide.Proofs.Prekey.Answer
import Confide.Proofs.Prekey.Expiry
import Confide.Proofs.Prekey.Latest
import Confide.Proofs.Prekey.Ledger
import Confide.Proofs.Prekey.Origin
import Confide.Proofs.Prekey.Publication
import Confide.Proofs.Prekey.Rotation
import Confide.Proofs.Prekey.Store
import Confide.Proofs.Prekey.Versions
import Confide.Proofs.Ratchet.Cache
import Confide.Proofs.Ratchet.Chain
import Confide.Proofs.Ratchet.Changes
import Confide.Proofs.Ratchet.Commuting
import Confide.Proofs.Ratchet.Conversation
import Confide.Proofs.Ratchet.Delivery
import Confide.Proofs.Ratchet.Eviction
import Confide.Proofs.Ratchet.Hearing
import Confide.Proofs.Ratchet.Limits
import Confide.Proofs.Ratchet.Metering
import Confide.Proofs.Ratchet.Numbering
import Confide.Proofs.Ratchet.Readiness
import Confide.Proofs.Ratchet.Replay
import Confide.Proofs.Ratchet.Speaking
import Confide.Proofs.Ratchet.Steps
import Confide.Proofs.Ratchet.Turns
import Confide.Proofs.Signaling
import Confide.Proofs.Sorted
import Confide.Proofs.Stepping
import Confide.Proofs.Wire.Items
import Confide.Proofs.Wire.Reading
import Confide.Proofs.Wire.RoundTrip
import Confide.Proofs.Wire.Truncation
import Confide.Ratchet.Cache
import Confide.Ratchet.Chain
import Confide.Ratchet.Message
import Confide.Ratchet.Session
import Confide.Signaling.Backoff
import Confide.Signaling.Config
import Confide.Signaling.Envelope
import Confide.Signaling.Error
import Confide.Simulation.Cast
import Confide.Simulation.Connections
import Confide.Simulation.Conversations
import Confide.Simulation.Puppets
import Confide.Simulation.Relay
import Confide.Simulation.Run
import Confide.Simulation.World
import Confide.Sorted.Map
import Confide.Sorted.Set
import Confide.Suite
import Confide.Wire.Catalog
import Confide.Wire.Cbor
import Confide.Wire.Cbor.Head
import Confide.Wire.Cbor.Item
import Confide.Wire.Json
import Confide.Wire.Shape
