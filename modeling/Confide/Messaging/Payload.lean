import Confide.Group.Message
import Confide.Ratchet.Message

/-! What peers send each other over a connection, and what is inside a direct message. -/

set_option autoImplicit false

namespace Confide

inductive WireMessage where
  /-- For one peer, under the session with it. -/
  | direct (message : RatchetMessage)
  /-- For all members of a group, under our sender chain. -/
  | group (message : GroupMessage)
  deriving DecidableEq

instance : Wire WireMessage where
  shape := .iso (.choice (.holding "Direct" Wire.shape <| .holding "Group" Wire.shape .nil))
    (fun
      | .inl message => .direct message
      | .inr (.inl message) => .group message)
    (fun
      | .direct message => .inl message
      | .group message => .inr (.inl message))
    fun message => by cases message <;> rfl

inductive SessionPayload where
  | application (content : Bytes)
  | senderKey (distribution : Distribution)
  deriving DecidableEq

instance : Wire SessionPayload where
  shape := .iso (.choice (.holding "Application" .blob <| .holding "SenderKey" Wire.shape .nil))
    (fun
      | .inl content => .application content
      | .inr (.inl distribution) => .senderKey distribution)
    (fun
      | .application content => .inl content
      | .senderKey distribution => .inr (.inl distribution))
    fun payload => by cases payload <;> rfl

end Confide
