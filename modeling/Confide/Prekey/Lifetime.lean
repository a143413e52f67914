import Confide.Duration
import Confide.Failure

/-! The span of seconds in which a key may be used, both ends included. -/

set_option autoImplicit false

namespace Confide

def saturatingAdd (first second : UInt64) : UInt64 :=
  .ofNat (min (first.toNat + second.toNat) 0xffffffffffffffff)

structure Lifetime where
  notBefore : UInt64
  notAfter : UInt64
  deriving DecidableEq

namespace Lifetime

instance : Wire Lifetime where
  shape := .iso
    (.record false (.field "not_before" .uint64 <| .field "not_after" .uint64 .nil))
    (fun (first, last, _) => ⟨first, last⟩) (fun l => (l.notBefore, l.notAfter, ())) fun _ => rfl

inductive Error where
  | invalidRange
  | tooEarly (notBefore : UInt64)
  | expired (notAfter : UInt64)
  deriving DecidableEq, Repr

def Error.message : Error → String
  | .invalidRange => "lifetime ends before it begins"
  | .tooEarly notBefore => "key is not valid before " ++ toString notBefore.toNat
  | .expired notAfter => "key expired at " ++ toString notAfter.toNat

instance : Failure Error where
  code
    | .invalidRange => "InvalidRange"
    | .tooEarly _ => "TooEarly"
    | .expired _ => "Expired"
  message error := some error.message

/-- From now on, for the whole seconds of a duration. -/
def lasting (now : UInt64) (duration : Duration) : Lifetime :=
  ⟨now, saturatingAdd now duration.seconds⟩

/-- The end is extended by the whole seconds of the grace. -/
def check (lifetime : Lifetime) (now : UInt64) (grace : Duration) : Except Error Unit :=
  if lifetime.notBefore > lifetime.notAfter then .error .invalidRange
  else if now < lifetime.notBefore then .error (.tooEarly lifetime.notBefore)
  else if now > saturatingAdd lifetime.notAfter grace.seconds then
    .error (.expired lifetime.notAfter)
  else .ok ()

def isValid (lifetime : Lifetime) (now : UInt64) (grace : Duration) : Bool :=
  (lifetime.check now grace).isOk

end Lifetime

namespace Duration

def zero : Duration := ⟨0, by decide⟩

end Duration

end Confide
