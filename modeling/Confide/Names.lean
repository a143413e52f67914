/-! Values of several kinds under names. Each kind has a name space of its own. -/

set_option autoImplicit false

namespace Confide

/-- The newest entry comes first. -/
structure Names (κ : Type) (type : κ → Type) where
  entries : List (String × (kind : κ) × type kind) := []

namespace Names

variable {κ : Type} {type : κ → Type} [DecidableEq κ]

def get? (names : Names κ type) (kind : κ) (name : String) : Option (type kind) :=
  names.entries.findSome? fun (own, ⟨other, value⟩) =>
    if h : other = kind ∧ own = name then some (h.1 ▸ value) else none

def erase (names : Names κ type) (kind : κ) (name : String) : Names κ type :=
  ⟨names.entries.filter fun (own, ⟨other, _⟩) => other ≠ kind || own ≠ name⟩

/-- Gives a name to a value; what had it before has none. -/
def insert (names : Names κ type) (kind : κ) (name : String) (value : type kind) : Names κ type :=
  ⟨(name, ⟨kind, value⟩) :: (names.erase kind name).entries⟩

theorem get?_insert (names : Names κ type) (kind : κ) (name : String) (value : type kind) :
    (names.insert kind name value).get? kind name = some value := by
  simp [get?, insert]

theorem get?_erase (names : Names κ type) (kind : κ) (name : String) :
    (names.erase kind name).get? kind name = none := by
  simp only [get?, erase, List.findSome?_eq_none_iff, List.mem_filter, dite_eq_right_iff]
  intro entry kept same
  have other : ¬entry.2.1 = kind ∨ ¬entry.1 = name := by simpa using kept.2
  exact absurd same (not_and_of_not_or_not other)

end Names

end Confide
