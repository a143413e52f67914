import Confide.Duration

/-! How long the steps of a connection attempt may take. -/

set_option autoImplicit false

namespace Confide

structure ConnectionConfig where
  /-- An attempt which is not connected after this time has failed. -/
  connectTimeout : Duration := .ofSeconds 15
  /-- Gathering lasts at least this long, for addresses found late. -/
  minGathering : Duration := .ofSeconds 1
  /-- Gathering ends after this time with what was found. -/
  gatheringTimeout : Duration := .ofSeconds 5
  /-- Unanswered offers and our candidates are sent again in this interval. -/
  retransmitInterval : Duration := .ofSeconds 2
  /-- After the first check that succeeds we wait this long for faster pairs. -/
  nominationWindow : Duration := .ofMillis 200
  /-- How many frames of a connection may wait to be sent. -/
  channelCapacity : UInt64 := 128
  deriving DecidableEq

instance : Wire ConnectionConfig where
  shape := .iso
    (.record false (.field "connect_timeout" Wire.shape <|
      .field "min_gathering_time" Wire.shape <| .field "gathering_timeout" Wire.shape <|
      .field "retransmit_interval" Wire.shape <| .field "nomination_window" Wire.shape <|
      .field "channel_capacity" .uint64 .nil))
    (fun (timeout, least, most, interval, window, capacity, _) =>
      ⟨timeout, least, most, interval, window, capacity⟩)
    (fun c => (c.connectTimeout, c.minGathering, c.gatheringTimeout, c.retransmitInterval,
      c.nominationWindow, c.channelCapacity, ()))
    fun _ => rfl

end Confide
