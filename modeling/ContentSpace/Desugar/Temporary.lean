import ContentSpace.Number.Numeral

/-!
# Temporary names

Expansions of sugar need names and labels of their own. They start with a mark that no name of
source text can have, and they end with a number that is never used again.
-/

namespace ContentSpace

/-- The supply of temporary names. -/
structure Temporaries where
  /-- How many names have been given out. -/
  issued : Nat := 0
  deriving DecidableEq

namespace Temporaries

/-- The mark at the start of temporary names. -/
def mark : Char := '$'

/-- The temporary name with a stem and a number. -/
def name (stem : String) (number : Nat) : String :=
  String.ofList (mark :: stem.toList ++ Numeral.digits number)

/-- The temporary name with a stem and a number that was not given out before. -/
def fresh (stem : String) : StateM Temporaries String := fun temporaries =>
  (name stem temporaries.issued, ⟨temporaries.issued + 1⟩)

/-- Whether a name is temporary. -/
def isTemporary (name : String) : Bool := name.toList.head? == some mark

end Temporaries

end ContentSpace
