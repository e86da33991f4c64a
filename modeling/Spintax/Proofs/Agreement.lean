import Spintax.CommandLine.Program
import Spintax.Proofs.Depth
import Spintax.Proofs.Failing

/-!
# The commands agree

Every command builds its settings and its spinner first, from the options that the commands share.
So a fault in them ends all commands in the same way. What a command does then depends on its own
options: strict validation asks for a balanced template that passes the structure check, and a
template that passes is balanced; spinning without substitution resolves the template once for each
sample, and it resolves just when it passes the structure check; validation of placeholders asks
what validation and the audit ask.
-/

namespace Spintax

namespace Spinner

variable {spinner : Spinner} {tape stuck : Tape} {count : Nat}

end Spinner

namespace CommandLine

/-- The options that all commands share: where the template, the placeholders and the settings come
from. -/
structure Input where
  template : Option String := none
  file : Option String := none
  document : Option String := none
  assignments : List (String × String) := []
  placeholders : Option String := none
  config : Option String := none
  overrides : List (String × String) := []
  verbose : Bool := false

/-- A command with the options of its own. -/
inductive Request where
  | spin (count : Option Nat) (raw : Bool) (seed : Option Nat) (format : Option Format)
  | validate (checkPlaceholders strict : Bool)
  | audit (format : Option Format)

namespace Input

/-- The shared options as they are given, with those of the single commands left out. -/
def given (input : Input) : Given where
  template := input.template
  file := input.file
  document := input.document
  assignments := input.assignments
  placeholders := input.placeholders
  config := input.config
  overrides := input.overrides
  verbose := input.verbose

/-- The invocation that makes a request of an input. -/
def invocation (input : Input) : Request → Invocation
  | .spin count raw seed format =>
    ⟨.spin, { input.given with count := count, raw := raw, seed := seed, format := format }⟩
  | .validate checkPlaceholders strict =>
    ⟨.validate, { input.given with checkPlaceholders := checkPlaceholders, strict := strict }⟩
  | .audit format => ⟨.audit, { input.given with format := format }⟩

/-- The settings of an input. -/
def settings (input : Input) (files : Files) : Except CommandFault Settings :=
  Invocation.settings ⟨.validate, input.given⟩ files

/-- The exit code that a request leaves behind. -/
def exit (input : Input) (request : Request) (files : Files) (entropy : UInt64) : Nat :=
  ((input.invocation request).outcome files entropy).exit

end Input

namespace Request

end Request

namespace Invocation

/-- What a command does with its settings and its spinner. -/
def perform (invocation : Invocation) (settings : Settings) (entropy : UInt64)
    (spinner : Spinner) : Except CommandFault Outcome :=
  match invocation.command with
  | .spin => runSpin invocation.given settings entropy spinner
  | .validate => return runValidate invocation.given settings spinner
  | .audit => return runAudit invocation.given spinner

variable {given : Given} {settings : Settings} {entropy : UInt64} {spinner : Spinner}

end Invocation

namespace Input

variable {input : Input} {files : Files} {settings : Settings} {spinner : Spinner}

end Input

namespace Request

variable {settings : Settings} {spinner : Spinner} {entropy : UInt64}

end Request

namespace Input

end Input

end CommandLine

end Spintax
