/-!
# Settings of the compiler

Settings say which names are keywords besides the reserved words, how deep source text may nest, and
what stored content is tagged with when the source gives no tag.
-/

namespace ContentSpace

/-- Settings of the compiler. -/
structure Settings where
  /-- Names that start with one of these are keywords. -/
  privileged : List String := ["ls.", "sys."]
  /-- How deep statements and expressions may nest. -/
  maxDepth : Nat := 128
  /-- The tag of stored content for which the source gives none. -/
  defaultTag : String := "value"
  deriving DecidableEq

namespace Settings

/-- Shallow nesting, for source that is not trusted. -/
def strict : Settings := { maxDepth := 64 }

/-- The settings with one more privileged beginning of names. -/
def addPrivileged (settings : Settings) (start : String) : Settings :=
  { settings with privileged := settings.privileged ++ [start] }

/-- Whether a name starts in a privileged way. -/
def isPrivileged (settings : Settings) (word : String) : Bool :=
  settings.privileged.any fun start => start.toList.isPrefixOf word.toList

end Settings

end ContentSpace
