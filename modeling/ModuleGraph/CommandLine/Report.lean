import ModuleGraph.CommandLine.Arguments
import ModuleGraph.Event.Log
import ModuleGraph.Text.Markup
/-!
# Reports of a command

What a command leaves behind: what it says about its own use, what it shows on the console, how it
sets up logging, the records that it logs, and how it ends.
-/

namespace ModuleGraph.CommandLine

/-- What is shown on the console. -/
inductive Shown where
  /-- A line of markup. -/
  | line (markup : String)
  /-- A table of markup. -/
  | table (title : String) (columns : List String) (rows : List (List String))
  deriving DecidableEq, Repr, Inhabited

/-- The lines of what is shown, without styles and borders; the cells of a row have a bar between
them. -/
def Shown.lines : Shown → List String
  | .line markup => Text.split '\n' (Text.markupText markup)
  | .table title columns rows =>
    title :: (columns :: rows).map fun cells => " | ".intercalate (cells.map Text.markupText)

/-- The set-up of logging that a command asks for: a level and a file, where they are given. -/
structure LoggingRequest where
  level : Option String
  file : Option String
  deriving DecidableEq, Repr, Inhabited

/-- A command as it is named in messages about its use. -/
structure Usage where
  /-- The words that call it. -/
  path : String
  /-- The forms of its arguments. -/
  forms : String
  deriving DecidableEq, Repr

/-- How to use a command. -/
def Usage.line (u : Usage) : String := "Usage: " ++ u.path ++ " " ++ u.forms ++ "\n"

/-- Why a command ends before its work is done. -/
inductive Stop where
  /-- It was not used as it should be; the usage is told where it is known. -/
  | misuse (usage : Option Usage) (message : String)
  /-- Help was asked for. -/
  | help (usage : Usage)
  /-- No command was named. -/
  | unnamed (usage : Usage)
  /-- The user did not confirm. -/
  | declined
  /-- The work failed, and the user was told. -/
  | failed
  /-- The work failed in a way that nobody deals with. -/
  | escaped (e : Fault)

/-- What a command leaves behind on its way. -/
structure Traces where
  /-- What was said about the use of the command. -/
  output : String
  console : List Shown
  logging : Option LoggingRequest
  records : List LogRecord
  deriving Inhabited

/-- A command that has ended. -/
structure Report where
  exit : Nat
  /-- The fault that nobody dealt with. -/
  escaped : Option Fault
  traces : Traces

namespace Stop

/-- What is said at the end. -/
def parting : Stop → String
  | .misuse usage message =>
    (match usage with
      | some u => u.line ++ "Try '" ++ u.path ++ " --help' for help.\n\n"
      | none => "") ++ "Error: " ++ message ++ "\n"
  | .help usage | .unnamed usage => usage.line
  | .declined => "Aborted!\n"
  | .failed | .escaped _ => ""

/-- The exit status. -/
def exit : Stop → Nat
  | .misuse .. | .unnamed _ => 2
  | .help _ => 0
  | .declined | .failed | .escaped _ => 1

/-- The fault that nobody deals with. -/
def fault? : Stop → Option Fault
  | .escaped e => some e
  | _ => none

end Stop

/-- The report of a command that ended in its own time or before. -/
def Report.of (r : Except Stop Unit) (t : Traces) : Report :=
  match r with
  | .ok () => ⟨0, none, t⟩
  | .error stop => ⟨stop.exit, stop.fault?, { t with output := t.output ++ stop.parting }⟩

end ModuleGraph.CommandLine
