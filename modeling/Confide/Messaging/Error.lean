import Confide.Connection.State
import Confide.Group.Message
import Confide.Prekey.Store

/-! Why a message could not be sent. Cryptographic causes are not told apart. -/

set_option autoImplicit false

namespace Confide

inductive SendError where
  | connectionFailed (peer : IdentityKey) (failure : ConnectionFailure)
  /-- The peer could not be authenticated. -/
  | connectionDenied (peer : IdentityKey) (reason : String)
  | connection (cause : ConnectionError)
  | noBundle (peer : IdentityKey)
  | unknownGroup (group : GroupId)
  | partialDelivery (missed : List IdentityKey)
  | crypto
  | keyStore (cause : KeyStore.Error)
  | store (detail : String)
  | directory (detail : String)
  deriving DecidableEq

namespace SendError

def ofConnection (peer : IdentityKey) : ConnectionError → SendError
  | .failed failure => .connectionFailed peer failure
  | cause => .connection cause

def numbersText (bytes : Bytes) : String :=
  "[" ++ ", ".intercalate (bytes.map fun byte => toString byte.toNat) ++ "]"

/-- All bytes of a key, for a list of peers. -/
def peerText (peer : IdentityKey) : String :=
  "IdentityKey \x7b verifying_key: VerifyingKey(" ++ numbersText peer.verifyingKey.bytes.toList ++
    "), dh_key: PublicKey(" ++ numbersText peer.dhKey.bytes.toList ++ ") \x7d"

def message : SendError → String
  | .connectionFailed peer failure =>
    "could not connect to " ++ peer.display ++ ": " ++ failure.message
  | .connectionDenied peer reason => "connection to " ++ peer.display ++ " denied: " ++ reason
  | .connection cause => cause.message
  | .noBundle peer => "no pre-key bundle published by " ++ peer.display
  | .unknownGroup group => "unknown group " ++ group.toHex
  | .partialDelivery missed =>
    "message could not be delivered to [" ++ ", ".intercalate (missed.map peerText) ++ "]"
  | .crypto => "encryption failed"
  | .keyStore cause => cause.message
  | .store detail => "store error: " ++ detail
  | .directory detail => "bundle directory error: " ++ detail

instance : Failure SendError where
  code
    | .connectionFailed _ _ => "ConnectionFailed"
    | .connectionDenied _ _ => "ConnectionDenied"
    | .connection _ => "Connection"
    | .noBundle _ => "NoBundle"
    | .unknownGroup _ => "UnknownGroup"
    | .partialDelivery _ => "PartialDelivery"
    | .crypto => "Crypto"
    | .keyStore _ => "KeyStore"
    | .store _ => "Store"
    | .directory _ => "Directory"
  message error := some error.message

end SendError

end Confide
