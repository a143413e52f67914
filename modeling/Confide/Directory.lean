import Confide.Prekey.Bundle

/-! Where peers publish their bundles. Each prekey for one use is handed out once, in the order in
which it was published. -/

set_option autoImplicit false

namespace Confide

structure DirectoryEntry where
  /-- The bundle without prekeys for one use. -/
  bundle : Bundle
  oneTime : List OneTimePrekey
  deriving DecidableEq

structure Directory where
  entries : SortedMap IdentityKey DirectoryEntry := .empty

namespace Directory

/-- Replaces what the owner of the bundle published before. -/
def publish (d : Directory) (bundle : Bundle) : Directory :=
  ⟨d.entries.insert bundle.identity ⟨bundle.withOneTimePrekey none, bundle.oneTimePrekeys⟩⟩

/-- The bundle of a peer with the next of its prekeys for one use, as long as there are any. -/
def fetch (d : Directory) (peer : IdentityKey) : Option Bundle × Directory :=
  match d.entries.get? peer with
  | none => (none, d)
  | some entry =>
    (some (entry.bundle.withOneTimePrekey entry.oneTime.head?),
      ⟨d.entries.insert peer { entry with oneTime := entry.oneTime.tail }⟩)

def remaining (d : Directory) (peer : IdentityKey) : Nat :=
  ((d.entries.get? peer).map (·.oneTime.length)).getD 0

end Directory

end Confide
