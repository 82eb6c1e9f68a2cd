import ModuleGraph.Text.Affix
import ModuleGraph.Text.Quoted
/-!
# Arguments of a command

A command is given options, which begin with a minus sign, and operands. The value of an option
stands behind an equals sign or is the next argument, whatever that is. Two minus signs alone end the
options.
-/

namespace ModuleGraph.CommandLine

/-- An option that a command knows. -/
structure KnownOption where
  name : String
  takesValue : Bool
  deriving DecidableEq, Repr

/-- The option that every command knows. -/
def helpOption : KnownOption := ⟨"--help", false⟩

/-- What a command was given: its options in their order, and its operands. -/
structure Given where
  options : List (String × String)
  operands : List String
  deriving DecidableEq, Repr, Inhabited

namespace Given

/-- The option was given. -/
def has (g : Given) (name : String) : Bool := g.options.any (·.1 = name)

/-- The value of an option; the last one counts. -/
def value? (g : Given) (name : String) : Option String := g.options.reverse.lookup name

end Given

/-- Why arguments cannot be read. -/
inductive ArgumentProblem where
  | unknownOption (name : String)
  | valueMissing (name : String)
  | valueRefused (name : String)
  deriving DecidableEq, Repr

/-- What is said of the problem. -/
def ArgumentProblem.message : ArgumentProblem → String
  | .unknownOption name => "No such option " ++ Text.quoted name ++ "."
  | .valueMissing name => "Option " ++ Text.quoted name ++ " requires an argument."
  | .valueRefused name => "Option " ++ Text.quoted name ++ " does not take a value."

/-- The argument is an option. -/
def isOption (argument : String) : Bool :=
  Text.startsWith argument "-" && 1 < argument.length

/-- The name of an option and the value behind its equals sign. -/
def cutValue (argument : String) : String × Option String :=
  match Text.cutAt '=' argument.toList with
  | some (name, value) => (.ofList name, some (.ofList value))
  | none => (argument, none)

/-- The problem of an option that is not known. One minus sign begins an option of one letter. -/
def unknown (argument name : String) : ArgumentProblem :=
  .unknownOption (if Text.startsWith argument "--" then name else Text.takeFirst argument 2)

/-- Reads arguments. A command with `operandsLast` takes everything from its first operand on as
operands. -/
def readArguments (known : List KnownOption) (operandsLast : Bool) :
    Given → List String → Except ArgumentProblem Given
  | g, [] => .ok g
  | g, argument :: rest =>
    if argument = "--" then .ok { g with operands := g.operands ++ rest }
    else if isOption argument then
      let (name, attached) := cutValue argument
      let add := fun (value : String) => { g with options := g.options ++ [(name, value)] }
      match known.find? (·.name = name), attached, rest with
      | none, _, _ => .error (unknown argument name)
      | some ⟨_, false⟩, some _, _ => .error (.valueRefused name)
      | some ⟨_, false⟩, none, rest => readArguments known operandsLast (add "") rest
      | some ⟨_, true⟩, some value, rest => readArguments known operandsLast (add value) rest
      | some ⟨_, true⟩, none, [] => .error (.valueMissing name)
      | some ⟨_, true⟩, none, value :: rest => readArguments known operandsLast (add value) rest
    else if operandsLast then .ok { g with operands := g.operands ++ argument :: rest }
    else readArguments known operandsLast { g with operands := g.operands ++ [argument] } rest

end ModuleGraph.CommandLine
