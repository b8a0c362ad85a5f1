import Switchboard.Console.Arguments
import Switchboard.Console.Report
import Switchboard.Registry.Builtin

/-!
What the program answers: an exit code, and what it writes to its two outputs. A
command line that cannot be followed exits with 2; a fault, or arguments that match
no rules, with 1. A check writes its report only if every value can be evaluated.
-/

namespace Switchboard.Console

/-- What a run of the program leaves. -/
structure Reply where
  exit : Nat
  out : String
  err : String
  deriving DecidableEq, Repr

/-- Lines, each ended by a line break. -/
def unlines (lines : List String) : String :=
  String.join (lines.map fun line => line ++ "\n")

def versionText : String := "typex 0.4.0"

/-- The description of the program. -/
def helpText : String :=
  unlines [
    versionText,
    "",
    "Type-predicate expressions and overload matching.",
    "",
    "Usage:",
    "  typex [OPTIONS] check <expression> [<json>...]",
    "  typex [OPTIONS] explain <expression>",
    "  typex [OPTIONS] match <rules-json> <args-json>",
    "",
    "Commands:",
    "  check      Test each JSON value against the expression. Reads a stream of",
    "             JSON values from stdin when none are given.",
    "  explain    Show the normalized expression and its compiled tree.",
    "  match      Test a JSON argument array against a JSON rule array and print",
    "             the arguments with defaults filled in.",
    "",
    "Options:",
    "  -d, --define <name=alias>  Define a type before running (repeatable).",
    "  --color                    Force ANSI color output.",
    "  --no-color                 Disable ANSI color output.",
    "  -v, --verbose              Log at debug level (overridden by TYPEX_LOG).",
    "  -h, --help                 Show this help message.",
    "  -V, --version              Print version information.",
    "",
    "Exit codes:",
    "  0  Success.",
    "  1  Evaluation error, or no match for `match`.",
    "  2  Invalid arguments or input."]

/-- The wording of a usage error. -/
def UsageError.message : UsageError → String
  | defineWithoutOperand => "error: --define expects name=alias"
  | invalidDefine operand => "error: invalid --define '" ++ operand ++ "' (expected name=alias)"
  | unknownOption option => "error: unknown option '" ++ option ++ "'"
  | missingExpression command => "error: " ++ command ++ " expects an expression"
  | missingRules => "error: match expects a rule array"
  | missingArguments => "error: match expects an argument array"
  | unexpectedArgument word => "error: unexpected argument '" ++ word ++ "'"
  | unknownCommand word => "error: unknown command '" ++ word ++ "'\n\n" ++ helpText
  | noCommand => "error: no command provided\n\n" ++ helpText
  | invalidJson source => "error: invalid JSON '" ++ source ++ "': malformed text"
  | invalidInput => "error: invalid JSON on stdin: malformed text"
  | notAnArray what value => "error: " ++ what ++ " must be a JSON array, got " ++ value.display
  | invalidRule fault => "error: " ++ fault.message

/-- The reply to a command line that cannot be followed. -/
def UsageError.reply (error : UsageError) : Reply :=
  ⟨2, "", unlines [error.message]⟩

/-- The reply to a command that ends in a fault. -/
def faultReply (fault : Fault) : Reply :=
  ⟨1, "", unlines ["error: " ++ fault.message]⟩

/-- The answers to programs: the program's own registry runs none that asks. -/
abbrev answers : Answers Unit := .exceeded

/-- Bind the defined aliases in order. -/
def defineAll : List (String × String) → Attempt Unit Unit
  | [] => return ()
  | (name, source) :: rest => do
      Registry.define answers name (.alias source)
      defineAll rest

/-- Evaluate an expression on values in order. -/
def evaluateAll (expression : String) : List Value → Attempt Unit (List (Value × Bool))
  | [] => return []
  | v :: rest => do
      let ok ← Registry.evaluate answers expression v
      let outcomes ← evaluateAll expression rest
      return (v, ok) :: outcomes

/-- The table of one route that answers the settled arguments. -/
def probe (rules : List Descriptor) : Attempt Unit (Dispatcher Unit Unit) :=
  Dispatcher.ofItems answers
    [.rules rules, .behavior fun call => .done (.ok (.array call.arguments))]

/-- Dispatch to the probe; no answer if its rules do not match. -/
def probeCall (table : Dispatcher Unit Unit) (arguments : List Value) :
    Attempt Unit (Option Value) :=
  tryCatch (some <$> table.dispatch 1 () arguments) fun fault =>
    match fault with
    | .noMatchingRoute .. => return none
    | fault => throw fault

/-- Follow a command. -/
def Command.perform (palette : Palette) : Command → Attempt Unit Reply
  | check expression values => do
      let outcomes ← evaluateAll expression values
      return ⟨0, unlines (checkReport palette expression outcomes), ""⟩
  | explain expression => do
      let parsed ← (Registry.compileStep expression : Run Unit Parsed)
      let registry ← get
      return ⟨0, unlines (explainReport palette registry.contains expression parsed.tree), ""⟩
  | matchRules rules arguments => do
      let table ← probe rules
      let outcome ← probeCall table arguments
      let shown := String.join (table.routes.map Route.display)
      let report := matchReport palette shown (Value.array arguments).display
        (outcome.map Value.display)
      return ⟨if outcome.isSome then 0 else 1, unlines report, ""⟩

/-- The registry that a command runs in. -/
def freshRegistry : Registry Unit :=
  Registry.new .standard ()

/-- Define the aliases and follow the command. -/
def execute (scan : Scan) (command : Command) : Reply :=
  let run : Attempt Unit Reply := do
    defineAll scan.defines
    command.perform ⟨scan.color⟩
  match run.run.run freshRegistry with
  | some (.ok reply, _) => reply
  | some (.error fault, _) => faultReply fault
  | none => ⟨1, "", ""⟩

/-- The options and the command of an argument list, where the output may go to a terminal. -/
def readArguments (arguments : List String) (terminal : Bool) : Except Stop (Scan × Order) := do
  let scan ← (Scan.start terminal).read arguments
  let order ← (Order.ofWords scan.words).mapError Stop.misuse
  return (scan, order)

/-- The reply to a reading that ended early. -/
def Stop.reply : Stop → Reply
  | help => ⟨0, unlines [helpText], ""⟩
  | version => ⟨0, unlines [versionText], ""⟩
  | misuse error => error.reply

/-- The reply to an argument list, given the standard input and whether the output goes to a
terminal. -/
def reply (arguments : List String) (input : String) (terminal : Bool := false) : Reply :=
  match readArguments arguments terminal with
  | .error stop => stop.reply
  | .ok (scan, order) =>
      match order.load input with
      | .error error => error.reply
      | .ok command => execute scan command

/-- Whether an argument list makes the program read its standard input. -/
def readsInput (arguments : List String) (terminal : Bool) : Bool :=
  match readArguments arguments terminal with
  | .ok (_, order) => order.readsInput
  | .error _ => false

end Switchboard.Console
