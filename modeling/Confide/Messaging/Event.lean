import Confide.Connection.State
import Confide.Group.Message

/-! What a peer learns from its connections and its conversations. -/

set_option autoImplicit false

namespace Confide

inductive ConnectionEvent where
  | stateChanged (peer : IdentityKey) (state : ConnectionState)
  | connected (peer : IdentityKey)
  | message (peer : IdentityKey) (content : Bytes)
  | failed (peer : IdentityKey) (failure : ConnectionFailure)
  | closed (peer : IdentityKey)
  deriving DecidableEq

inductive SessionEvent where
  | message (peer : IdentityKey) (plaintext : Bytes)
  | groupMessage (group : GroupId) (sender : IdentityKey) (plaintext : Bytes)
  /-- We joined a group or its members changed. -/
  | groupUpdated (group : GroupId) (epoch : UInt64) (members : List IdentityKey)
  /-- A peer could not be authenticated. -/
  | denied (peer : IdentityKey) (reason : String)
  | connectionFailed (peer : IdentityKey) (failure : ConnectionFailure)
  | disconnected (peer : IdentityKey)
  deriving DecidableEq

end Confide
