/-! Causes of failure as the outside sees them: a stable name for programs and a text for people. -/

set_option autoImplicit false

namespace Confide

/-- A cause without a text is fully described by its name. -/
class Failure (ε : Type) where
  code : ε → String
  message : ε → Option String

end Confide
