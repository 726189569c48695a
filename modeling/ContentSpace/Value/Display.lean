import ContentSpace.Text.Quoted
import ContentSpace.Value.Basic

/-!
# Values as shown to people

Values are shown with quoted text, items between square brackets and fields between braces, each
name before its value.
-/

namespace ContentSpace.Value

mutual

/-- The value as shown to people. -/
def display : Value → String
  | null => "null"
  | bool true => "true"
  | bool false => "false"
  | int n => String.ofList (Numeral.ofInt n.toInt)
  | float x => String.ofList x.text
  | string text => Text.quoted text
  | array items => "[" ++ ", ".intercalate (displayItems items) ++ "]"
  | object fields => "\x7b" ++ ", ".intercalate (displayFields fields) ++ "\x7d"

/-- Each item as shown to people. -/
def displayItems : List Value → List String
  | [] => []
  | item :: rest => item.display :: displayItems rest

/-- Each field as shown to people. -/
def displayFields : List (String × Value) → List String
  | [] => []
  | (name, item) :: rest => (Text.quoted name ++ ": " ++ item.display) :: displayFields rest

end

end ContentSpace.Value
