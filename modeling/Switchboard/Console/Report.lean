import Switchboard.Dispatcher

/-!
The reports of the command line, as lists of lines. Colours go around single words
and are left out altogether when the palette is off.
-/

namespace Switchboard.Console

/-- A colour or weight of the terminal, by its number. -/
inductive Style where
  | bold
  | dim
  | green
  | yellow
  | blue
  | cyan
  | gray

/-- The number of a style in an escape sequence. -/
def Style.code : Style → String
  | bold => "1"
  | dim => "2"
  | green => "32"
  | yellow => "33"
  | blue => "34"
  | cyan => "36"
  | gray => "90"

/-- Whether reports are coloured. -/
structure Palette where
  enabled : Bool

/-- A text in a style. -/
def Palette.paint (palette : Palette) (style : Style) (text : String) : String :=
  if palette.enabled then "\x1b[" ++ style.code ++ "m" ++ text ++ "\x1b[0m" else text

/-- A truth value in its colour. -/
def Palette.verdict (palette : Palette) (ok : Bool) : String :=
  if ok then palette.paint .green "true" else palette.paint .yellow "false"

/-- The line of one checked value. -/
def checkLine (palette : Palette) (v : Value) (ok : Bool) : String :=
  palette.verdict ok ++ "  " ++ palette.paint .dim v.display ++ " " ++
    palette.paint .gray ("(" ++ v.typeName ++ ")")

/-- The report of a check: the expression, then each value with its verdict. -/
def checkReport (palette : Palette) (expression : String) (outcomes : List (Value × Bool)) :
    List String :=
  palette.paint .dim ("# " ++ expression) ::
    outcomes.map fun (v, ok) => checkLine palette v ok

/-- The label of a node of a tree. -/
def nodeLabel (palette : Palette) (defined : String → Bool) : Expr → String
  | .named name =>
      if defined name then palette.paint .green name
      else palette.paint .yellow name ++ " " ++ palette.paint .dim "(undefined)"
  | .or .. => palette.paint .blue "or"
  | .and .. => palette.paint .blue "and"
  | .not _ => palette.paint .blue "not"
  | .arrayOf _ => palette.paint .blue "array of"

/-- The lines of a tree: `indent` is drawn before the branch of each line, and `last`
says whether no sibling follows. -/
def treeLines (palette : Palette) (defined : String → Bool) (indent : String) (last : Bool)
    (tree : Expr) : List String :=
  let branch := if last then "└─ " else "├─ "
  let line := "  " ++ palette.paint .dim indent ++ palette.paint .dim branch ++
    nodeLabel palette defined tree
  let inner := indent ++ (if last then "   " else "│  ")
  line ::
    match tree with
    | .named _ => []
    | .or left right =>
        treeLines palette defined inner false left ++ treeLines palette defined inner true right
    | .and left right =>
        treeLines palette defined inner false left ++ treeLines palette defined inner true right
    | .not child => treeLines palette defined inner true child
    | .arrayOf child => treeLines palette defined inner true child

/-- The report of an explanation: the source, its normal spelling, its canonical text
and its tree. -/
def explainReport (palette : Palette) (defined : String → Bool) (expression : String)
    (tree : Expr) : List String :=
  [palette.paint .bold (palette.paint .cyan ("⚙  Expression: \"" ++ expression ++ "\"")),
    "  " ++ palette.paint .dim "normalized:" ++ " " ++ Spelling.normalize expression,
    "  " ++ palette.paint .dim "canonical: " ++ " " ++ tree.render,
    "",
    palette.paint .gray "━━━ Tree ━━━"] ++ treeLines palette defined "" true tree

/-- The report of a match: the rules, the arguments, and the settled arguments if
they match. -/
def matchReport (palette : Palette) (rules arguments : String) (settled : Option String) :
    List String :=
  [palette.paint .dim "rules:" ++ " " ++ palette.paint .cyan rules,
    palette.paint .dim "args: " ++ " " ++ arguments,
    match settled with
    | some settled => palette.paint .green "match:" ++ " " ++ palette.paint .bold settled
    | none => palette.paint .yellow "no match"]

end Switchboard.Console
