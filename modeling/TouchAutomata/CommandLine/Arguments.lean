import TouchAutomata.CommandLine.Invocation

/-!
# Reading the arguments of a command line

Arguments are read from the first to the last, first those of the program and then those of its
command. An option takes its value from the same argument or from the next one; that value is
looked at only when the next option or operand comes, or at the end, so an argument that is not
known is reported before a wrong value to its left. After two dashes all arguments are operands.
-/

set_option autoImplicit false

namespace TouchAutomata

/-- The commands without their options. -/
inductive Verb where
  | compile
  | draw
  | inspect
  | touches
  deriving DecidableEq, Repr

namespace Verb

/-- The name of a command. -/
def name : Verb → String
  | compile => "compile"
  | draw => "export"
  | inspect => "inspect"
  | touches => "symbol"

/-- The command with a name. -/
def ofName? (name : String) : Option Verb :=
  [compile, draw, inspect, touches].find? fun v => v.name = name

/-- The argument that asks for help like a command. -/
def help : String := "help"

/-- Whether an argument is the name of a command, the one that asks for help included. -/
def isName (arg : String) : Bool := (ofName? arg).isSome || arg = help

end Verb

/-- The options. -/
inductive Switch where
  | config
  | strict
  | format
  | output
  | maxStates
  | deterministic
  | json
  | help
  | version
  deriving DecidableEq, Repr

namespace Switch

/-- The name of an option, behind two dashes. -/
def name : Switch → String
  | config => "config"
  | strict => "strict"
  | format => "format"
  | output => "output"
  | maxStates => "max-states"
  | deterministic => "dfa"
  | json => "json"
  | help => "help"
  | version => "version"

/-- The letter of an option, behind one dash. -/
def letter? : Switch → Option Char
  | config => some 'c'
  | format => some 'f'
  | output => some 'o'
  | help => some 'h'
  | version => some 'V'
  | _ => none

/-- Whether an option has a value. -/
def takesValue : Switch → Bool
  | config | format | output | maxStates => true
  | _ => false

/-- The options of the program, or of a command. -/
def ofVerb : Option Verb → List Switch
  | none => [config, strict, help, version]
  | some .compile => [config, strict, format, output, maxStates, help]
  | some .draw => [config, strict, output, help]
  | some .inspect => [config, strict, deterministic, json, help]
  | some .touches => [config, strict, help]

end Switch

/-- A number of states as it is given on a command line. -/
def readStateCount (text : String) : Option Nat :=
  let digits := match text.toList with
    | '+' :: cs => cs
    | cs => cs
  (Numeral.readNat digits).filter fun n => n < Numeral.bitRange 64

/-- An argument that is not looked at yet. -/
inductive PendingArgument where
  | option (switch : Switch) (value : Option String)
  | operand (text : String)
  deriving DecidableEq

/-- What has been read of the arguments of the program or of a command. -/
structure Arguments where
  options : List (Switch × String) := []
  operands : List String := []
  pending : Option PendingArgument := none
  deriving DecidableEq

namespace Arguments

/-- The value of an option. -/
def value? (args : Arguments) (s : Switch) : Option String := args.options.lookup s

/-- Whether an option is given. -/
def has (args : Arguments) (s : Switch) : Bool := (args.value? s).isSome

/-- What is wrong with the value of an option. -/
def checkValue (s : Switch) (value : String) : Except UsageFault Unit :=
  match s with
  | .format => if (OutputFormat.ofName? value).isSome then .ok () else .error .invalidValue
  | .maxStates => if (readStateCount value).isSome then .ok () else .error .invalidNumber
  | .config | .output => if value = "" then .error .invalidValue else .ok ()
  | .help => .error .helpRequested
  | .version => .error .versionRequested
  | .strict | .deterministic | .json => .ok ()

/-- Takes an option with its value; one without a value has the empty one. -/
def accept (args : Arguments) (s : Switch) (value : String) : Except UsageFault Arguments :=
  if args.has s then .error .repeatedOption
  else do
    checkValue s value
    .ok { args with options := args.options ++ [(s, value)] }

/-- Looks at the argument that was left pending. -/
def settle (args : Arguments) : Except UsageFault Arguments :=
  match args.pending with
  | none => .ok args
  | some (.option _ none) => .error .invalidValue
  | some (.option s (some value)) => { args with pending := none }.accept s value
  | some (.operand text) =>
    if text = "" then .error .invalidValue
    else .ok { args with pending := none, operands := args.operands ++ [text] }

/-- Takes an option, with the value attached to it if there is one. -/
def addOption (args : Arguments) (s : Switch) (attached : Option String) :
    Except UsageFault Arguments :=
  match s.takesValue, attached with
  | true, some value => args.settle.bind fun args => args.accept s value
  | true, none => args.settle.map fun args => { args with pending := some (.option s none) }
  | false, none => args.settle.bind fun args => args.accept s ""
  | false, some _ => .error .tooManyValues

/-- The text before the first equals sign, and the text after it. -/
def splitValue (cs : List Char) : String × Option String :=
  match cs.span (· ≠ '=') with
  | (name, _ :: value) => (String.ofList name, some (String.ofList value))
  | (name, []) => (String.ofList name, none)

/-- Reads an option by its name. -/
def addNamed (verb : Option Verb) (args : Arguments) (cs : List Char) :
    Except UsageFault Arguments :=
  let (name, attached) := splitValue cs
  match (Switch.ofVerb verb).find? fun s => s.name = name with
  | some s => args.addOption s attached
  | none => .error .unknownArgument

/-- Reads an option by its letter. What follows the letter is the value, after an equals sign
or without one. -/
def addLetter (verb : Option Verb) (args : Arguments) (c : Char) (rest : List Char) :
    Except UsageFault Arguments :=
  match (Switch.ofVerb verb).find? fun s => s.letter? = some c with
  | some s =>
    if s.takesValue then
      match rest with
      | [] => args.addOption s none
      | '=' :: value => args.addOption s (some (String.ofList value))
      | value => args.addOption s (some (String.ofList value))
    else args.addOption s none
  | none => .error .unknownArgument

/-- Takes an operand. A command that shows touches has any number, the others have one. -/
def addOperand (verb : Verb) (args : Arguments) (arg : String) : Except UsageFault Arguments :=
  match verb with
  | .touches => args.settle.map fun args => { args with operands := args.operands ++ [arg] }
  | _ =>
    let operandPending := match args.pending with
      | some (.operand _) => true
      | _ => false
    if operandPending || !args.operands.isEmpty then .error .unknownArgument
    else args.settle.map fun args => { args with pending := some (.operand arg) }

/-- Whether the next argument may be the value of an option. -/
def awaitsValue (args : Arguments) : Bool :=
  match args.pending with
  | some (.option _ none) => true
  | _ => false

/-- Gives the next argument to the option that awaits it. -/
def giveValue (args : Arguments) (value : String) : Arguments :=
  match args.pending with
  | some (.option s none) => { args with pending := some (.option s (some value)) }
  | _ => args

/-- Reads one argument that is not the name of a command; `operand` takes it if it is no
option and no value. -/
def addArgument (verb : Option Verb) (operand : Arguments → Except UsageFault Arguments)
    (args : Arguments) (arg : String) : Except UsageFault Arguments :=
  match arg.toList with
  | '-' :: '-' :: cs => args.addNamed verb cs
  | '-' :: c :: cs => args.addLetter verb c cs
  | _ => if args.awaitsValue then .ok (args.giveValue arg) else operand args

/-- The arguments of a command; the flag says whether all that follow are operands. -/
def readCommand (verb : Verb) : Bool → Arguments → List String → Except UsageFault Arguments
  | _, args, [] => .ok args
  | operandsOnly, args, arg :: rest =>
    if operandsOnly then
      (args.addOperand verb arg).bind fun args => readCommand verb true args rest
    else if arg = "--" then readCommand verb true args rest
    else
      (args.addArgument (some verb) (fun args => args.addOperand verb arg) arg).bind fun args =>
        readCommand verb false args rest

/-- Uses the value that the environment has for an option that is not given. -/
def addEnvironment (verb : Verb) (maxStates : Option String) (args : Arguments) :
    Except UsageFault Arguments :=
  match maxStates with
  | some value =>
    if verb = .compile ∧ !args.has .maxStates then args.accept .maxStates value else .ok args
  | none => .ok args

/-- The command that a verb and its arguments ask for. -/
def command (verb : Verb) (args : Arguments) : Except UsageFault Command :=
  match verb, args.operands with
  | _, [] => .error .missingArgument
  | .compile, definition :: _ =>
    .ok (.compile definition ((args.value? .format).bind OutputFormat.ofName?)
      (args.value? .output) ((args.value? .maxStates).bind readStateCount))
  | .draw, definition :: _ => .ok (.draw definition (args.value? .output))
  | .inspect, definition :: _ =>
    .ok (.inspect definition (args.has .deterministic) (args.has .json))
  | .touches, encodings => .ok (.touches encodings)

/-- What the arguments of a command ask for, with those of the program before it. -/
def invocation (maxStates : Option String) (program : Arguments) (verb : Verb)
    (rest : List String) : Except UsageFault Invocation := do
  let args ← readCommand verb false {} rest
  let args ← args.settle
  let args ← args.addEnvironment verb maxStates
  let command ← args.command verb
  let program ← program.settle
  .ok
    { settingsFile := args.value? .config <|> program.value? .config
      strict := args.has .strict || program.has .strict
      command }

/-- The answer to a request for help on commands. -/
def helpFault : List String → UsageFault
  | [] => .helpRequested
  | [name] => if Verb.isName name then .helpRequested else .unknownCommand
  | _ => .unknownCommand

/-- Why an operand is refused where a command should be. -/
def operandFault (operandsOnly : Bool) (arg : String) : UsageFault :=
  if operandsOnly && Verb.isName arg then .unknownArgument else .unknownCommand

/-- Reads the arguments of the program up to the command, and then those of the command. -/
def readProgram (maxStates : Option String) :
    Bool → Arguments → List String → Except UsageFault Invocation
  | _, args, [] =>
    args.settle.bind fun args =>
      .error (if args.options.isEmpty then .noArguments else .missingCommand)
  | operandsOnly, args, arg :: rest =>
    if operandsOnly then .error (operandFault true arg)
    else
      match if args.awaitsValue then none else Verb.ofName? arg with
      | some verb => invocation maxStates args verb rest
      | none =>
        if arg = Verb.help ∧ !args.awaitsValue then .error (helpFault rest)
        else if arg = "--" then readProgram maxStates true args rest
        else
          (args.addArgument none (fun _ => .error (operandFault false arg)) arg).bind fun args =>
            readProgram maxStates false args rest

end Arguments

/-- What the arguments of a command line ask for. The environment may name a number of states
for the command that makes automata deterministic. -/
def Invocation.ofArguments (maxStates : Option String) (args : List String) :
    Except UsageFault Invocation :=
  Arguments.readProgram maxStates false {} args

end TouchAutomata
