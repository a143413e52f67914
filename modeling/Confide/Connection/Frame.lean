import Confide.Wire.Shape

/-! What travels over an open channel: contents, and a farewell before a channel is closed on
purpose. -/

set_option autoImplicit false

namespace Confide

inductive ChannelFrame where
  | data (content : Bytes)
  | close
  deriving DecidableEq

instance : Wire ChannelFrame where
  shape := .iso (.choice (.holding "Data" .blob <| .plain "Close" .nil))
    (fun
      | .inl content => .data content
      | .inr (.inl _) => .close)
    (fun
      | .data content => .inl content
      | .close => .inr (.inl ()))
    fun frame => by cases frame <;> rfl

end Confide
