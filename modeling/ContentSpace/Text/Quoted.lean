import ContentSpace.Text.Hexadecimal
import ContentSpace.Text.Unprintable

/-!
# Quoted text

Messages show text between quotes. The quote and the backslash are escaped, four controls have
escapes of one letter, and any other character without a shape of its own is written by its code
point. Text stands between double quotes and a single character between apostrophes, so each form
escapes its own quote and leaves the other one alone.
-/

namespace ContentSpace.Text

/-- One character inside a pair of the given quotes. -/
def escaped (quote : Char) (c : Char) : List Char :=
  if c = quote ∨ c = '\\' then ['\\', c]
  else if c = '\n' then ['\\', 'n']
  else if c = '\t' then ['\\', 't']
  else if c = '\r' then ['\\', 'r']
  else if c = '\x00' then ['\\', '0']
  else if isUnprintable c then "\\u\x7b".toList ++ hexDigits c.toNat ++ ['\x7d']
  else [c]

/-- Text between double quotes. -/
def quoted (text : String) : String :=
  String.ofList ('"' :: text.toList.flatMap (escaped '"') ++ ['"'])

/-- One character between apostrophes. -/
def quotedChar (c : Char) : String :=
  String.ofList ('\'' :: escaped '\'' c ++ ['\''])

end ContentSpace.Text
