import ContentSpace.CanonicalText.Basic
import ContentSpace.Table.Basic

/-!
# Configuration of a space

A configuration is fixed for the life of a space. It says how long new handles are, how deep the
canonical text that the space reads may nest, and whether changes of watched handles are recorded.
-/

namespace ContentSpace

/-- Settings of a space. -/
structure SpaceConfiguration where
  /-- Fingerprint digits in a new handle, unless more are needed. -/
  digestLength : Nat := 16
  /-- Nesting of arrays and objects that reading canonical text accepts. -/
  decodeLimit : Nat := CanonicalText.defaultLimit
  /-- Whether changes of watched handles are recorded. -/
  trackChanges : Bool := true
  deriving DecidableEq

namespace SpaceConfiguration

/-- Short handles, for handles that people read. -/
def compact : SpaceConfiguration := { digestLength := 8 }

/-- Full handles and shallow reading, for input that is not trusted. -/
def strict : SpaceConfiguration := { digestLength := Fingerprint.hexLength, decodeLimit := 32 }

/-- The number of fingerprint digits that a new handle starts from. -/
def effectiveLength (configuration : SpaceConfiguration) : Nat :=
  Table.firstLength configuration.digestLength

end SpaceConfiguration

end ContentSpace
