import Confide.Connection.Config
import Confide.Group.State
import Confide.Prekey.Store
import Confide.Ratchet.Session
import Confide.Signaling.Config
import Confide.Wire.Json

/-! All settings of a peer. -/

set_option autoImplicit false

namespace Confide

structure Config where
  keyStore : KeyStoreConfig := {}
  ratchet : RatchetConfig := {}
  group : GroupConfig := {}
  signaling : SignalingConfig := {}
  connection : ConnectionConfig := {}
  deriving DecidableEq

instance : Wire Config where
  shape := .iso
    (.record false (.field "key_store" Wire.shape <| .field "ratchet" Wire.shape <|
      .field "group" Wire.shape <| .field "signaling" Wire.shape <|
      .field "connection" Wire.shape .nil))
    (fun (keyStore, ratchet, group, signaling, connection, _) =>
      ⟨keyStore, ratchet, group, signaling, connection⟩)
    (fun c => (c.keyStore, c.ratchet, c.group, c.signaling, c.connection, ())) fun _ => rfl

/-- An object with the entries of another one in place of its own. -/
def Json.override (own given : Json) : Json :=
  match own, given with
  | .object entries, .object others =>
    .object (others ++ entries.filter fun entry => (others.lookup entry.1).isNone)
  | own, _ => own

/-- Reads settings of which only some are given; the others are the usual ones. -/
def Config.ofPartial? (given : Json) : Option Config :=
  match Json.encode ({} : Config), given with
  | .object sections, .object others =>
    Json.decode? (Json.object (sections.map fun (name, own) =>
      (name, own.override ((others.lookup name).getD .null)))).toTree
  | _, _ => none

end Confide
