import Spintax.CommandLine.Commands

/-!
# The program

A command line either stops early, for help, for the version, or because it was misused, or it leads
to a command that is run. The exit code is 0 for success, 1 for a command that failed or found a
fault, and 2 for misuse.
-/

namespace Spintax.CommandLine

/-- The program's name and version. -/
def versionText : String :=
  "textspin 0.1.0\n"

/-- A line of a list of words and what they are for. -/
def helpLine (words summary : String) : String :=
  "  " ++ String.ofList (words.toList.rightpad 34 ' ') ++ summary ++ "\n"

/-- An option with its letter and its value, as help shows it. -/
def Switch.usage (switch : Switch) : String :=
  let letter := match switch.letter? with
    | some letter => "-" ++ letter.toString ++ ", "
    | none => "    "
  let value := if switch.standsAlone then "" else " <" ++ switch.long ++ ">"
  letter ++ "--" ++ switch.long ++ value

/-- The options of a list, one on each line. -/
def optionLines (switches : List Switch) : String :=
  String.join (switches.map fun switch => helpLine switch.usage switch.summary)

/-- How the program is used. -/
def usageText : String :=
  "Usage: textspin [OPTIONS] <COMMAND>\n"

/-- What the program can do. -/
def helpText : String :=
  let commands := Command.all.map fun command =>
    "\n" ++ command.name ++ " [OPTIONS] [template]\n" ++
      helpLine "" command.summary ++ optionLines (Switch.known (some command))
  "Expand spintax templates into randomized text\n\n" ++ usageText ++ String.join commands ++
    "\nOptions before a command:\n" ++ optionLines (Switch.known none)

/-- What a command line that leads to no command leaves behind. -/
def Stop.outcome : Stop → Outcome
  | .misuse => { exit := 2, message := some usageText }
  | .help => { exit := 0, output := helpText }
  | .version => { exit := 0, output := versionText }

/-- What an invocation leaves behind. -/
def Invocation.outcome (invocation : Invocation) (files : Files) (entropy : UInt64) : Outcome :=
  match invocation.run files entropy with
  | .ok outcome => outcome
  | .error fault => fault.outcome

/-- What a command line leaves behind. -/
def outcome (arguments : List String) (files : Files) (entropy : UInt64) : Outcome :=
  match parse arguments with
  | .ok invocation => invocation.outcome files entropy
  | .error stop => stop.outcome

end Spintax.CommandLine
