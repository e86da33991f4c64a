import Spintax.Text.Reading

/-!
# Commands and options

What can be written on the command line: three commands, and options that belong to some of them. An
option has a long name, perhaps a letter, and either stands alone or takes one value.
-/

namespace Spintax.CommandLine

/-- What can be done with a template. -/
inductive Command where
  | spin | validate | audit
deriving DecidableEq, Repr

namespace Command

/-- All commands. -/
def all : List Command :=
  [.spin, .validate, .audit]

/-- The word for a command. -/
def name : Command → String
  | .spin => "spin"
  | .validate => "validate"
  | .audit => "audit"

/-- What a command does. -/
def summary : Command → String
  | .spin => "Produce one or more samples of a template"
  | .validate => "Check that a template is well-formed"
  | .audit => "List placeholder references that cannot be substituted"

/-- The command of a word. -/
def ofName? (word : String) : Option Command :=
  all.find? fun command => command.name == word

end Command

/-- The options. -/
inductive Switch where
  | file | document | placeholder | placeholders
  | count | raw | seed | format
  | placeholdersCheck | strict
  | config | set | verbose | help | version
deriving DecidableEq, Repr

namespace Switch

/-- The long name, without its dashes. -/
def long : Switch → String
  | .file => "file"
  | .document => "document"
  | .placeholder => "placeholder"
  | .placeholders => "placeholders"
  | .count => "count"
  | .raw => "raw"
  | .seed => "seed"
  | .format => "format"
  | .placeholdersCheck => "placeholders-check"
  | .strict => "strict"
  | .config => "config"
  | .set => "set"
  | .verbose => "verbose"
  | .help => "help"
  | .version => "version"

/-- The letter, if there is one. -/
def letter? : Switch → Option Char
  | .file => some 'f'
  | .document => some 'd'
  | .placeholder => some 'p'
  | .count => some 'n'
  | .config => some 'c'
  | .verbose => some 'v'
  | .help => some 'h'
  | .version => some 'V'
  | _ => none

/-- Whether the option stands alone. -/
def standsAlone : Switch → Bool
  | .raw | .placeholdersCheck | .strict | .verbose | .help | .version => true
  | _ => false

/-- What the option is for. -/
def summary : Switch → String
  | .file => "Read the template from a file"
  | .document => "Read template, placeholders and markers from a JSON or YAML document"
  | .placeholder => "Placeholder value as name=value (repeatable)"
  | .placeholders => "JSON or YAML file with an object of placeholder values"
  | .count => "Number of samples (default from config)"
  | .raw => "Leave placeholder references unsubstituted"
  | .seed => "Seed the random source for reproducible output"
  | .format => "Output format: text or json"
  | .placeholdersCheck => "Also require every referenced placeholder to be valid"
  | .strict => "Also require every close marker to follow a matching open"
  | .config => "TOML file layered over the built-in defaults"
  | .set => "Override one configuration key as key=value, e.g. markers.open=["
  | .verbose => "Log engine activity to stderr"
  | .help => "Print help"
  | .version => "Print version"

/-- The options that stand before a command or behind it. -/
def shared : List Switch :=
  [.config, .set, .verbose, .help]

/-- The options that say where a template and its placeholders come from. -/
def input : List Switch :=
  [.file, .document, .placeholder, .placeholders]

/-- The options that are known behind a command, or before it. -/
def known : Option Command → List Switch
  | none => shared ++ [.version]
  | some .spin => input ++ [.count, .raw, .seed, .format] ++ shared
  | some .validate => input ++ [.placeholdersCheck, .strict] ++ shared
  | some .audit => input ++ [.format] ++ shared

/-- The option of a long name. -/
def ofLong? (known : List Switch) (name : String) : Option Switch :=
  known.find? fun switch => switch.long == name

/-- The option of a letter. -/
def ofLetter? (known : List Switch) (letter : Char) : Option Switch :=
  known.find? fun switch => switch.letter? == some letter

end Switch

/-- The name and the value of an assignment: the first equals sign stands between them, and the name
is not empty. -/
def assignment? (text : String) : Option (String × String) :=
  let cs := text.toList
  let name := cs.takeWhile (· != '=')
  match cs.dropWhile (· != '=') with
  | _ :: value => if name.isEmpty then none else some (String.ofList name, String.ofList value)
  | [] => none

/-- The number that a text writes, perhaps behind a plus sign, if it fits 64 bits. -/
def number? (text : String) : Option Nat :=
  let digits := match text.toList with
    | '+' :: rest => rest
    | cs => cs
  if digits.isEmpty || !digits.all Char.isDigit then none
  else if Text.decimalOf digits < UInt64.size then some (Text.decimalOf digits)
  else none

/-- The forms in which results are written. -/
inductive Format where
  | text | json
deriving DecidableEq, Repr

/-- The form of a word. -/
def Format.ofName? (word : String) : Option Format :=
  if word == "text" then some .text
  else if word == "json" then some .json
  else none

/-- The options given at one place of a command line, before the command or behind it. -/
structure Given where
  template : Option String := none
  file : Option String := none
  document : Option String := none
  assignments : List (String × String) := []
  placeholders : Option String := none
  count : Option Nat := none
  raw : Bool := false
  seed : Option Nat := none
  format : Option Format := none
  checkPlaceholders : Bool := false
  strict : Bool := false
  config : Option String := none
  overrides : List (String × String) := []
  verbose : Bool := false
deriving DecidableEq, Repr

namespace Given

/-- Give a value to what has none yet. -/
def once {α β : Type} (old : Option α) (value : Option α) (store : α → β) : Option β :=
  if old.isSome then none else value.map store

/-- Raise a flag that is not raised yet. -/
def raiseFlag {β : Type} (old : Bool) (raised : β) : Option β :=
  if old then none else some raised

/-- Take in an option with its value. Only assignments and overrides may be given more than once, and
the value has to be of the right form. -/
def take (given : Given) (switch : Switch) (value : String) : Option Given :=
  match switch with
  | .file => once given.file (some value) fun value => { given with file := some value }
  | .document => once given.document (some value) fun value => { given with document := some value }
  | .placeholder => (assignment? value).map fun pair =>
    { given with assignments := given.assignments ++ [pair] }
  | .placeholders =>
    once given.placeholders (some value) fun value => { given with placeholders := some value }
  | .count => once given.count (number? value) fun number => { given with count := some number }
  | .raw => raiseFlag given.raw { given with raw := true }
  | .seed => once given.seed (number? value) fun number => { given with seed := some number }
  | .format =>
    once given.format (Format.ofName? value) fun format => { given with format := some format }
  | .placeholdersCheck =>
    raiseFlag given.checkPlaceholders { given with checkPlaceholders := true }
  | .strict => raiseFlag given.strict { given with strict := true }
  | .config => once given.config (some value) fun value => { given with config := some value }
  | .set => (assignment? value).map fun pair =>
    { given with overrides := given.overrides ++ [pair] }
  | .verbose => raiseFlag given.verbose { given with verbose := true }
  | .help => none
  | .version => none

/-- Take in a template, of which there is one. -/
def takeTemplate (given : Given) (text : String) : Option Given :=
  once given.template (some text) fun text => { given with template := some text }

/-- Whether at most one of template, file and document is given. -/
def isConsistent (given : Given) : Bool :=
  let sources := [given.template, given.file, given.document]
  (sources.filter Option.isSome).length ≤ 1

/-- The options behind a command, together with the shared ones before it, which count only where
they are not given again. -/
def under (given : Given) (before : Given) : Given :=
  { given with
    config := given.config <|> before.config
    overrides := if given.overrides.isEmpty then before.overrides else given.overrides
    verbose := given.verbose || before.verbose }

end Given

end Spintax.CommandLine
