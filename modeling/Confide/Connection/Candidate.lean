import Confide.Address

/-! What two peers tell each other about the ways in which they may be reached. -/

set_option autoImplicit false

namespace Confide

inductive CandidateKind where
  /-- The address of a local interface. -/
  | host
  /-- Our address as others see it. -/
  | serverReflexive
  deriving DecidableEq, Repr

instance : Wire CandidateKind where
  shape := .iso (.choice (.plain "host" <| .plain "serverreflexive" .nil))
    (fun
      | .inl _ => .host
      | .inr (.inl _) => .serverReflexive)
    (fun
      | .host => .inl ()
      | .serverReflexive => .inr (.inl ()))
    fun kind => by cases kind <;> rfl

structure Candidate where
  kind : CandidateKind
  address : Address
  deriving DecidableEq

namespace Candidate

instance : Wire Candidate where
  shape := .iso
    (.record false (.field "kind" Wire.shape <| .field "address" Wire.shape .nil))
    (fun (kind, address, _) => ⟨kind, address⟩) (fun c => (c.kind, c.address, ())) fun _ => rfl

def display (candidate : Candidate) : String :=
  let kind := match candidate.kind with
    | .host => "host"
    | .serverReflexive => "srflx"
  kind ++ " " ++ candidate.address.toText

end Candidate

/-- The name under which one side of an attempt takes part in it. -/
structure SessionDescription where
  fragment : String
  deriving DecidableEq

instance : Wire SessionDescription where
  shape := .iso (.record false (.field "ufrag" .text .nil))
    (fun (fragment, _) => ⟨fragment⟩) (fun d => (d.fragment, ())) fun _ => rfl

end Confide
