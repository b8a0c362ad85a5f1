import Switchboard.Number.Decimal
import Switchboard.Text.Quoted
import Switchboard.Value.Basic

/-!
The two texts of a value. The literal form quotes strings and expands containers;
the plain form is what a value turns into where text is wanted: arrays join their
items with commas, unset items being blank, and objects have one fixed text.
-/

namespace Switchboard.Value

mutual

/-- The literal form of a value. -/
def display : Value → String
  | undefined => "undefined"
  | null => "null"
  | boolean b => if b then "true" else "false"
  | number n => n.display
  | string s => Text.quoted s
  | regexp pattern => "/" ++ pattern ++ "/"
  | array items => "[" ++ String.intercalate ", " (displayItems items) ++ "]"
  | object fields => "\x7b" ++ String.intercalate ", " (displayFields fields) ++ "\x7d"
  | function f => "function " ++ f.name

def displayItems : List Value → List String
  | [] => []
  | item :: rest => item.display :: displayItems rest

def displayFields : List (String × Value) → List String
  | [] => []
  | (key, entry) :: rest => (key ++ ": " ++ entry.display) :: displayFields rest

end

/-- Values in literal form, separated by commas. -/
def displayAll (values : List Value) : String :=
  String.intercalate ", " (displayItems values)

mutual

/-- The plain form of a value, as text. -/
def plainText : Value → List Char
  | undefined => "undefined".toList
  | null => "null".toList
  | boolean b => if b then "true".toList else "false".toList
  | number n => n.text
  | string s => s.toList
  | regexp pattern => '/' :: pattern.toList ++ ['/']
  | array items => List.intercalate [','] (plainItems items)
  | object _ => "[object Object]".toList
  | function f => "function ".toList ++ f.name.toList ++ "() \x7b [native code] \x7d".toList

def plainItems : List Value → List (List Char)
  | [] => []
  | item :: rest => (if item.isUnset then [] else item.plainText) :: plainItems rest

end

end Switchboard.Value
