import Spintax.CommandLine.Options

/-!
# Reading a command line

Arguments are read from left to right. Options may stand before the command or behind it; a value
follows its option as the next argument, behind an equals sign, or, for a letter, at once. Behind two
dashes everything is a template. The first fault, or the first request for help or for the version,
settles the matter.
-/

namespace Spintax.CommandLine

/-- Why a command line does not lead to a command. -/
inductive Stop where
  | misuse
  | help
  | version
deriving DecidableEq, Repr

/-- What is to be done, with all options. -/
structure Invocation where
  command : Command
  given : Given
deriving DecidableEq, Repr

/-- Options read from an argument: all are complete, or the last one waits for its value. -/
inductive Step where
  | complete (given : Given)
  | waiting (given : Given) (switch : Switch)

/-- Take in an option that is complete. -/
def complete (given : Given) (switch : Switch) (value : String) : Except Stop Given :=
  match given.take switch value with
  | some given => .ok given
  | none => .error .misuse

/-- Take in an option without a value. -/
def standalone (given : Given) (switch : Switch) : Except Stop Given :=
  match switch with
  | .help => .error .help
  | .version => .error .version
  | _ => complete given switch ""

/-- Read a long option, given what follows its dashes. -/
def longOption (known : List Switch) (given : Given) (cs : List Char) : Except Stop Step :=
  let name := String.ofList (cs.takeWhile (· != '='))
  match Switch.ofLong? known name, cs.dropWhile (· != '=') with
  | none, _ => .error .misuse
  | some switch, [] =>
    if switch.standsAlone then (standalone given switch).map .complete
    else .ok (.waiting given switch)
  | some switch, _ :: value =>
    if switch.standsAlone then .error .misuse
    else (complete given switch (String.ofList value)).map .complete

/-- Read letters behind one dash. The first that takes a value takes all that follows, without an
equals sign before it. -/
def letters (known : List Switch) (given : Given) : List Char → Except Stop Step
  | [] => .ok (.complete given)
  | letter :: cs =>
    match Switch.ofLetter? known letter with
    | none => .error .misuse
    | some switch =>
      if switch.standsAlone then
        match standalone given switch with
        | .ok given => letters known given cs
        | .error stop => .error stop
      else
        match cs with
        | [] => .ok (.waiting given switch)
        | '=' :: value => (complete given switch (String.ofList value)).map .complete
        | value => (complete given switch (String.ofList value)).map .complete

/-- The options of an argument; none if it is no option. A single dash is none. -/
def options? (known : List Switch) (given : Given) (argument : String) :
    Option (Except Stop Step) :=
  match argument.toList with
  | '-' :: '-' :: cs => some (longOption known given cs)
  | ['-'] => none
  | '-' :: cs => some (letters known given cs)
  | _ => none

/-- Whether an argument can be the value of the option before it. -/
def isValue (argument : String) : Bool :=
  match argument.toList with
  | ['-'] => true
  | '-' :: _ => false
  | _ => true

/-- Read the arguments behind a command. -/
def behindCommand (command : Command) (given : Given) : List String → Except Stop Given
  | [] => .ok given
  | argument :: rest =>
    if argument == "--" then
      rest.foldlM (fun given text =>
        match given.takeTemplate text with
        | some given => .ok given
        | none => .error .misuse) given
    else
      match options? (Switch.known (some command)) given argument with
      | some (.ok (.complete given)) => behindCommand command given rest
      | some (.ok (.waiting given switch)) =>
        match rest with
        | value :: rest =>
          if isValue value then
            match complete given switch value with
            | .ok given => behindCommand command given rest
            | .error stop => .error stop
          else
            .error .misuse
        | [] => .error .misuse
      | some (.error stop) => .error stop
      | none =>
        match given.takeTemplate argument with
        | some given => behindCommand command given rest
        | none => .error .misuse

/-- What the words behind the word for help ask for: at most one command to be helped with. -/
def helpWords (words : List String) : Stop :=
  match words with
  | [] => .help
  | [word] => if word == "help" || (Command.ofName? word).isSome then .help else .misuse
  | _ => .misuse

/-- Read the arguments up to a command, and what is behind it. -/
def beforeCommand (given : Given) : List String → Except Stop Invocation
  | [] => .error .misuse
  | argument :: rest =>
    if argument == "--" then
      .error .misuse
    else
      match options? (Switch.known none) given argument with
      | some (.ok (.complete given)) => beforeCommand given rest
      | some (.ok (.waiting given switch)) =>
        match rest with
        | value :: rest =>
          if isValue value then
            match complete given switch value with
            | .ok given => beforeCommand given rest
            | .error stop => .error stop
          else
            .error .misuse
        | [] => .error .misuse
      | some (.error stop) => .error stop
      | none =>
        match Command.ofName? argument with
        | some command => do
          let behind ← behindCommand command {} rest
          if behind.isConsistent then return ⟨command, behind.under given⟩ else throw .misuse
        | none => .error (if argument == "help" then helpWords rest else .misuse)

/-- What a command line asks for. -/
def parse (arguments : List String) : Except Stop Invocation :=
  beforeCommand {} arguments

end Spintax.CommandLine
