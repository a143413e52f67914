import Confide.Archive
import Confide.Config
import Confide.Connection.Candidate
import Confide.Connection.Negotiation
import Confide.Handshake
import Confide.Messaging.Payload
import Confide.Signaling.Envelope

/-! Everything with a written form, by its name, for tools which inspect stored values. -/

set_option autoImplicit false

namespace Confide

/-- A type with a written form, and its usual value if there is one. -/
structure Format where
  {type : Type}
  [wire : Wire type]
  usual : Option type

namespace Format

def of (type : Type) [Wire type] : Format := ⟨(none : Option type)⟩

def ofSettings {type : Type} [Wire type] (usual : type) : Format := ⟨some usual⟩

def catalog : List (String × Format) := [
  ("UInt64", of UInt64),
  ("String", of String),
  ("String at UInt64", of (UInt64 × String)),
  ("PublicKey", of PublicKey),
  ("SecretKey", of SecretKey),
  ("SigningKey", of SigningKey),
  ("VerifyingKey", of VerifyingKey),
  ("Signature", of Signature),
  ("Identity", of Identity),
  ("IdentityKey", of IdentityKey),
  ("Lifetime", of Lifetime),
  ("OneTimePrekey", of OneTimePrekey),
  ("SignedPrekey", of SignedPrekey),
  ("Bundle", of Bundle),
  ("KeySnapshot", of KeySnapshot),
  ("HandshakeHeader", of HandshakeHeader),
  ("Session", of Session),
  ("RatchetMessage", of RatchetMessage),
  ("SessionPayload", of SessionPayload),
  ("GroupId", of GroupId),
  ("Group", of Group),
  ("GroupMessage", of GroupMessage),
  ("Distribution", of Distribution),
  ("WireMessage", of WireMessage),
  ("Direction", of Direction),
  ("CiphertextRef", of CiphertextRef),
  ("MessageRecord", of (MessageRecord IdentityKey)),
  ("Candidate", of Candidate),
  ("CandidateKind", of CandidateKind),
  ("SessionDescription", of SessionDescription),
  ("PresenceStatus", of PresenceStatus),
  ("EnvelopeKind", of EnvelopeKind),
  ("KeyStoreConfig", ofSettings ({} : KeyStoreConfig)),
  ("RatchetConfig", ofSettings ({} : RatchetConfig)),
  ("GroupConfig", ofSettings ({} : GroupConfig)),
  ("BackoffConfig", ofSettings ({} : BackoffConfig)),
  ("SignalingConfig", ofSettings ({} : SignalingConfig)),
  ("ConnectionConfig", ofSettings ({} : ConnectionConfig)),
  ("Config", ofSettings ({} : Config))]

def ofName? (name : String) : Option Format := catalog.lookup name

end Format

end Confide
