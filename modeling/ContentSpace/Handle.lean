import ContentSpace.Fingerprint

/-!
# Handles

A handle names stored content: a tag, a colon, and the first digits of the fingerprint of the
content. Digits hold no colon, so the last colon of a handle always separates its two parts, also
when the tag holds colons of its own.
-/

namespace ContentSpace

/-- The name under which content is stored. -/
structure Handle where
  /-- The whole name. -/
  text : String
  deriving DecidableEq

namespace Handle

/-- The handle of a fingerprint with a tag and a number of digits; 64 digits are all there are. -/
def mint (tag : String) (fingerprint : Fingerprint) (length : Nat) : Handle :=
  ⟨String.ofList (tag.toList ++ ':' :: fingerprint.digest.hex.take length)⟩

/-- The two parts of a text around its last colon, if it has one. -/
def splitLast : List Char → Option (List Char × List Char)
  | [] => none
  | c :: rest =>
    match splitLast rest with
    | some (before, after) => some (c :: before, after)
    | none => if c = ':' then some ([], rest) else none

/-- The part before the last colon; without a colon there is none. -/
def tag (handle : Handle) : String :=
  (splitLast handle.text.toList).elim "" fun parts => String.ofList parts.1

/-- The part after the last colon; without a colon it is the whole name. -/
def digest (handle : Handle) : String :=
  (splitLast handle.text.toList).elim handle.text fun parts => String.ofList parts.2

/-- The handle as shown to people. -/
def display (handle : Handle) : String := "Handle(" ++ handle.text ++ ")"

end Handle

end ContentSpace
