import Spintax.CommandLine.Arguments
import Spintax.Document
import Spintax.Json.Printer
import Spintax.Settings.Layers

/-!
# Running a command

A command is run over the files that it can see: settings are built first, then the spinner, and then
the command does its work. Placeholders come from the document, from a file and from assignments, in
this order; markers come from the document, or else from the settings.
-/

namespace Spintax.CommandLine

/-- The contents of files by path; `none` where there is no file. -/
abbrev Files := String → Option String

/-- Why a command could not be run. -/
inductive CommandFault where
  | badOverride (key : String)
  | badSettings (fault : SettingsFault)
  | unreadable (path : String)
  | noTemplate
  /-- A file of placeholders is not in its format. -/
  | unparsable (path : String)
  | badPlaceholders (path : String) (refusal : Refusal)
  | spinning (fault : SpinError)
deriving DecidableEq, Repr

/-- The whole message. -/
def CommandFault.message : CommandFault → String
  | .badOverride key => "applying --set " ++ key ++ ": not a path of keys"
  | .badSettings .missingFile => "loading configuration: file not found"
  | .badSettings .unreadableFile => "loading configuration: not a TOML file"
  | .badSettings fault => "loading configuration: " ++ fault.message
  | .unreadable path => "reading " ++ path ++ ": file not found"
  | .noTemplate => "no template given (pass it inline, with --file or --document)"
  | .unparsable path => "parsing " ++ path ++ ": syntax error"
  | .badPlaceholders path refusal => path ++ ": " ++ refusal.message
  | .spinning fault => fault.message

/-- What a program leaves behind: its exit code, its output, and a message if it failed. -/
structure Outcome where
  exit : Nat
  output : String := ""
  message : Option String := none
deriving DecidableEq, Repr

/-- The outcome of a command that could not be run. -/
def CommandFault.outcome (fault : CommandFault) : Outcome :=
  ⟨1, "", some ("Error: " ++ fault.message)⟩

/-- The part of the last name of a path behind its last point; none if the name has no other
point or begins with its only one. -/
def extension? (path : String) : Option String :=
  let name := (path.toList.reverse.dropWhile (· == '/')).takeWhile (· != '/')
  match name.dropWhile (· != '.') with
  | _ :: _ :: _ =>
    if name == ['.', '.'] then none else some (String.ofList (name.takeWhile (· != '.')).reverse)
  | _ => none

/-- The format of a file, by its name. -/
def formatOf (path : String) : Document.Format :=
  match extension? path with
  | some extension => if extension == "yaml" || extension == "yml" then .yaml else .json
  | none => .json

/-- The content of a file that has to exist. -/
def readFile (files : Files) (path : String) : Except CommandFault String :=
  match files path with
  | some content => .ok content
  | none => .error (.unreadable path)

/-- The content of a file of settings, whose name may lack its extension. -/
def settingsFile (files : Files) (path : String) : Option String :=
  files path <|> files (path ++ ".toml")

namespace Invocation

/-- The paths that a command may read. -/
def paths (invocation : Invocation) : List String :=
  let given := invocation.given
  let config := match given.config with
    | some path => [path, path ++ ".toml"]
    | none => []
  config ++ [given.document, given.file, given.placeholders].filterMap id

/-- The layers of the settings, with the overrides of the command line. -/
def layers (invocation : Invocation) (files : Files) : Except CommandFault Layers :=
  let start : Layers := match invocation.given.config with
    | some path => Layers.addFile {} (settingsFile files path)
    | none => {}
  invocation.given.overrides.foldlM (fun collected pair =>
    match collected.override pair.1 (.text pair.2) with
    | .ok layers => .ok layers
    | .error _ => .error (.badOverride pair.1)) start

/-- The settings of a command. -/
def settings (invocation : Invocation) (files : Files) : Except CommandFault Settings := do
  let layers ← invocation.layers files
  match layers.settings with
  | .ok settings => return settings
  | .error fault => throw (.badSettings fault)

/-- The document of a command: one that is read, or one that has a template only. -/
def document (invocation : Invocation) (files : Files) : Except CommandFault Document := do
  let given := invocation.given
  match given.document, given.template, given.file with
  | some path, _, _ =>
    match Document.read (formatOf path) (← readFile files path) with
    | .ok document => return document
    | .error refusal => throw (.spinning (.refused refusal))
  | none, some template, _ => return { template := template }
  | none, none, some path => return { template := ← readFile files path }
  | none, none, none => throw .noTemplate

/-- The placeholders of a file. -/
def placeholdersOf (files : Files) (path : String) : Except CommandFault Table := do
  match (formatOf path).parse? (← readFile files path) with
  | none => throw (.unparsable path)
  | some value =>
    match Table.ofJson value with
    | .ok table => return table
    | .error refusal => throw (.badPlaceholders path refusal)

/-- The spinner of a command. -/
def spinner (invocation : Invocation) (files : Files) (settings : Settings) :
    Except CommandFault Spinner := do
  let document ← invocation.document files
  let markers ← match document.markers with
    | some markers => pure markers
    | none =>
      match settings.usableMarkers with
      | .ok markers => pure markers
      | .error refusal => throw (.spinning (.refused refusal))
  let further ← match invocation.given.placeholders with
    | some path => do pure (← placeholdersOf files path).entries
    | none => pure []
  let table := (document.placeholders.insertAll further).insertAll invocation.given.assignments
  return ⟨document.template, table, markers⟩

/-- Each text on a line of its own. -/
def asLines (texts : List String) : String :=
  String.join (texts.map fun text => text ++ "\n")

/-- Texts in the form that was asked for. -/
def inFormat (format : Option Format) (texts : List String) : String :=
  match format with
  | some .json => Json.prettyTexts texts ++ "\n"
  | _ => asLines texts

/-- Spin samples. `entropy` is the seed where none is given. -/
def runSpin (given : Given) (settings : Settings) (entropy : UInt64) (spinner : Spinner) :
    Except CommandFault Outcome :=
  let count := given.count.getD settings.spin.count.toNat
  let substitute := settings.spin.substitute && !given.raw
  let seed := match given.seed with
    | some seed => UInt64.ofNat seed
    | none => entropy
  match spinner.spinBatch count substitute ⟨.seeded seed, []⟩ with
  | .ok outputs _ => .ok { exit := 0, output := inFormat given.format outputs }
  | .error fault _ => .error (.spinning fault)

/-- Validate a template. -/
def runValidate (given : Given) (settings : Settings) (spinner : Spinner) : Outcome :=
  let checkPlaceholders := settings.spin.checkPlaceholders || given.checkPlaceholders
  let strict := settings.spin.strict || given.strict
  if !spinner.isValid checkPlaceholders then
    { exit := 1, output := "invalid\n" }
  else
    match strict, spinner.checkPairing with
    | true, .error fault => { exit := 1, output := "invalid: " ++ fault.message ++ "\n" }
    | _, _ => { exit := 0, output := "valid\n" }

/-- List the references that cannot be substituted. -/
def runAudit (given : Given) (spinner : Spinner) : Outcome :=
  let names := spinner.audit
  { exit := if names.isEmpty then 0 else 1, output := inFormat given.format names }

/-- Run a command. -/
def run (invocation : Invocation) (files : Files) (entropy : UInt64) :
    Except CommandFault Outcome := do
  let settings ← invocation.settings files
  let spinner ← invocation.spinner files settings
  match invocation.command with
  | .spin => runSpin invocation.given settings entropy spinner
  | .validate => return runValidate invocation.given settings spinner
  | .audit => return runAudit invocation.given spinner

end Invocation

end Spintax.CommandLine
