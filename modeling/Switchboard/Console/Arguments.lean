import Switchboard.Json.Reader
import Switchboard.Rule.Descriptor
import Switchboard.Text.Affix
import Switchboard.Text.Blank

/-!
The arguments of the command line. Options may stand anywhere before a bare `--`;
what is left are words, the first of which names the command. A word that starts
with a dash is an option unless it is a dash alone or a number. Arguments are read
in three steps: options and words, the command, and the JSON texts it is given.
Numbers in those texts are rounded step by step.
-/

namespace Switchboard.Console

/-- Why a command line cannot be followed. -/
inductive UsageError where
  | defineWithoutOperand
  | invalidDefine (operand : String)
  | unknownOption (option : String)
  | missingExpression (command : String)
  | missingRules
  | missingArguments
  | unexpectedArgument (word : String)
  | unknownCommand (word : String)
  | noCommand
  | invalidJson (source : String)
  | invalidInput
  | notAnArray (what : String) (value : Value)
  | invalidRule (fault : Fault)

/-- Why the reading of a command line ends early. -/
inductive Stop where
  | help
  | version
  | misuse (error : UsageError)

/-- Options and words of a command line. -/
structure Scan where
  words : List String
  /-- Names with the alias texts they are to be bound to, in order. -/
  defines : List (String × String)
  color : Bool
  verbose : Bool

/-- Before any argument is read: output is coloured if it goes to a terminal. -/
def Scan.start (terminal : Bool) : Scan := ⟨[], [], terminal, false⟩

/-- A name and an alias around the first equals sign; the name is not blank. -/
def readDefine? (operand : String) : Option (String × String) :=
  let chars := operand.toList
  match chars.dropWhile (· != '=') with
  | [] => none
  | _ :: aliasText =>
      let name := Text.trim (chars.takeWhile (· != '='))
      if name.isEmpty then none else some (String.ofList name, String.ofList aliasText)

/-- The operand of a joined definition option. -/
def joinedDefine? (argument : String) : Option String :=
  let head := "--define=".toList
  let chars := argument.toList
  (Text.afterPrefix? head chars).map fun rest =>
    String.ofList (Text.afterPrefixes head rest.length rest)

/-- Whether an argument has the look of an option: a dash and more, but no number. -/
def looksLikeOption (argument : String) : Bool :=
  match argument.toList with
  | '-' :: _ :: _ => (Number.read? argument).isNone
  | _ => false

/-- Take note of a definition. -/
def Scan.define (scan : Scan) (operand : String) : Except Stop Scan :=
  match readDefine? operand with
  | some pair => .ok { scan with defines := scan.defines ++ [pair] }
  | none => .error (.misuse (.invalidDefine operand))

/-- Read options and words. -/
def Scan.read (scan : Scan) : List String → Except Stop Scan
  | [] => .ok scan
  | argument :: rest =>
      if argument = "-h" || argument = "--help" then .error .help
      else if argument = "-V" || argument = "--version" then .error .version
      else if argument = "--color" then Scan.read { scan with color := true } rest
      else if argument = "--no-color" then Scan.read { scan with color := false } rest
      else if argument = "-v" || argument = "--verbose" then
        Scan.read { scan with verbose := true } rest
      else if argument = "--define" || argument = "-d" then
        match rest with
        | [] => .error (.misuse .defineWithoutOperand)
        | operand :: rest =>
            match scan.define operand with
            | .ok scan => Scan.read scan rest
            | .error stop => .error stop
      else if argument = "--" then .ok { scan with words := scan.words ++ rest }
      else
        match joinedDefine? argument with
        | some operand =>
            match scan.define operand with
            | .ok scan => Scan.read scan rest
            | .error stop => .error stop
        | none =>
            if looksLikeOption argument then .error (.misuse (.unknownOption argument))
            else Scan.read { scan with words := scan.words ++ [argument] } rest

/-- A command whose JSON texts are not read yet. -/
inductive Order where
  | check (expression : String) (sources : List String)
  | explain (expression : String)
  | matchRules (rules arguments : String)

/-- The command that a list of words gives. -/
def Order.ofWords : List String → Except UsageError Order
  | [] => .error .noCommand
  | command :: words =>
      if command = "check" then
        match words with
        | [] => .error (.missingExpression command)
        | expression :: sources => .ok (.check expression sources)
      else if command = "explain" then
        match words with
        | [] => .error (.missingExpression command)
        | [expression] => .ok (.explain expression)
        | _ :: extra :: _ => .error (.unexpectedArgument extra)
      else if command = "match" then
        match words with
        | [] => .error .missingRules
        | [_] => .error .missingArguments
        | [rules, arguments] => .ok (.matchRules rules arguments)
        | _ :: _ :: extra :: _ => .error (.unexpectedArgument extra)
      else .error (.unknownCommand command)

/-- Whether a command takes its values from the standard input. -/
def Order.readsInput : Order → Bool
  | check _ sources => sources.isEmpty
  | _ => false

/-- A command with all it needs. -/
inductive Command where
  | check (expression : String) (values : List Value)
  | explain (expression : String)
  | matchRules (rules : List Descriptor) (arguments : List Value)

/-- The value of a JSON text. -/
def readJson (source : String) : Except UsageError Value :=
  match Json.read? .stepwise source with
  | some v => .ok v
  | none => .error (.invalidJson source)

/-- The items of a JSON array. -/
def readArray (source what : String) : Except UsageError (List Value) :=
  match readJson source with
  | .error error => .error error
  | .ok (.array items) => .ok items
  | .ok other => .error (.notAnArray what other)

/-- The values of several JSON texts. -/
def readValues (sources : List String) : Except UsageError (List Value) :=
  sources.mapM readJson

/-- The descriptors that values describe. -/
def readDescriptors (values : List Value) : Except UsageError (List Descriptor) :=
  values.mapM fun v => (Descriptor.ofValue v).mapError UsageError.invalidRule

/-- Read the JSON texts of a command, given the standard input. -/
def Order.load (input : String) : Order → Except UsageError Command
  | check expression sources =>
      if sources.isEmpty then
        match Json.readStream? .stepwise input with
        | some values => .ok (.check expression values)
        | none => .error .invalidInput
      else (readValues sources).map (Command.check expression)
  | explain expression => .ok (.explain expression)
  | matchRules rules arguments => do
      let rules ← readArray rules "rules"
      let rules ← readDescriptors rules
      let arguments ← readArray arguments "arguments"
      return .matchRules rules arguments

end Switchboard.Console
