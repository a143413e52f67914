import Confide.Signaling.Backoff

/-! The settings of the client of the relay. -/

set_option autoImplicit false

namespace Confide

structure SignalingConfig where
  relay : String := "ws://localhost:8787/signal"
  authToken : Option String := none
  backoff : BackoffConfig := {}
  /-- The attempts in a row after which the client gives up. -/
  maxAttempts : UInt32 := 10
  /-- How many envelopes may wait to be sent. -/
  queueCapacity : UInt64 := 256
  deriving DecidableEq

instance : Wire SignalingConfig where
  shape := .iso
    (.record false (.field "relay_url" .text <| .field "auth_token" (.option .text) <|
      .field "backoff" Wire.shape <| .field "max_attempts" .uint32 <|
      .field "queue_capacity" .uint64 .nil))
    (fun (relay, token, backoff, attempts, capacity, _) =>
      ⟨relay, token, backoff, attempts, capacity⟩)
    (fun c => (c.relay, c.authToken, c.backoff, c.maxAttempts, c.queueCapacity, ())) fun _ => rfl

end Confide
