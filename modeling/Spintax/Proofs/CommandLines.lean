import Spintax.Proofs.Agreement
import Spintax.Proofs.Precedence

/-!
# Command lines that write options

An option is written by its name, which is the long one or the letter, and its value stands behind an
equals sign or is the next argument. Options that are written in any of these ways are taken in one after
another, in front of a command and behind it. So a command line leads to what its options come to when
they are taken in turn, or it is misused.

What commands have in common is read alike for all of them. The options of a single command touch nothing
else, so requests that are written with the same common options are requests of the same input.

Several letters in one argument, a value at once behind its letter and a template in front of options are
other ways to write the same. They are not treated here.
-/

namespace Spintax.CommandLine

/-- An element is found by a property that no other has. -/
theorem find?_eq_some_of_unique {α : Type} {xs : List α} {p : α → Bool} {x : α} (hx : x ∈ xs)
    (hp : p x = true) (hunique : ∀ y, p y = true → y = x) : xs.find? p = some x := by
  cases hfound : xs.find? p with
  | none => exact absurd hp (List.find?_eq_none.mp hfound x hx)
  | some y => rw [hunique y (List.find?_some hfound)]

namespace Switch

variable {known : List Switch} {switch : Switch} {letter : Char}

/-- No two options have the same long name. -/
theorem long_injective : Function.Injective long := by
  intro first second hlong
  cases first <;> cases second <;> first | rfl | exact absurd hlong (by decide)

/-- A long name is not empty and has no equals sign. -/
theorem long_spelling (switch : Switch) : switch.long.toList ≠ [] ∧ '=' ∉ switch.long.toList := by
  cases switch <;> decide

/-- No two options have the same letter, and it is not a dash. -/
theorem letter_unique (hletter : switch.letter? = some letter) :
    letter ≠ '-' ∧ ∀ other : Switch, other.letter? = some letter → other = switch := by
  cases switch <;> cases hletter <;> refine ⟨by decide, fun other hother => ?_⟩ <;>
    cases other <;> first | rfl | exact absurd hother (by decide)

/-- An option that is known is found by its long name. -/
theorem ofLong?_long (hknown : switch ∈ known) : ofLong? known switch.long = some switch :=
  find?_eq_some_of_unique hknown (beq_self_eq_true _) fun _ hother =>
    long_injective (eq_of_beq hother)

/-- An option that is known is found by its letter. -/
theorem ofLetter?_letter (hknown : switch ∈ known) (hletter : switch.letter? = some letter) :
    ofLetter? known letter = some switch :=
  find?_eq_some_of_unique hknown (beq_iff_eq.mpr hletter) fun other hother =>
    (letter_unique hletter).2 other (eq_of_beq hother)

end Switch

/-- The names of an option: the long one behind two dashes, and the letter behind one. -/
inductive Names : Switch → String → Prop where
  | long {switch : Switch} : Names switch ("--" ++ switch.long)
  | letter {switch : Switch} {letter : Char} (hletter : switch.letter? = some letter) :
    Names switch (String.ofList ['-', letter])

/-- The ways to write an option: it stands alone, or its value stands behind an equals sign, or its value
is the next argument and does not look like an option. -/
inductive Spells : Switch × String → List String → Prop where
  | alone {switch : Switch} {value name : String} (hstands : switch.standsAlone = true)
    (hname : Names switch name) : Spells (switch, value) [name]
  | joined {switch : Switch} {value name : String} (hstands : switch.standsAlone = false)
    (hname : Names switch name) : Spells (switch, value) [name ++ "=" ++ value]
  | apart {switch : Switch} {value name : String} (hstands : switch.standsAlone = false)
    (hname : Names switch name) (hvalue : isValue value = true) : Spells (switch, value) [name, value]

/-- An option that asks for something other than help or the version. -/
def Asks (known : List Switch) (switch : Switch) : Prop :=
  switch ∈ known ∧ switch ≠ .help ∧ switch ≠ .version

/-- An argument with a dash and something else is read as letters. -/
theorem options?_of_dash {known : List Switch} {argument : String} {letter : Char} {cs : List Char}
    (hargument : argument.toList = '-' :: letter :: cs) (hdash : letter ≠ '-') (given : Given) :
    options? known given argument = some (letters known given (letter :: cs)) := by
  rw [options?, hargument]
  split
  · next hsame => exact absurd (List.cons.inj (List.cons.inj hsame).2).1 hdash
  · next hsame => cases hsame
  · next hsame => rw [(List.cons.inj hsame).2]
  · next hother => exact absurd rfl (hother _)

namespace Names

variable {switch : Switch} {name value : String} {known : List Switch} {given : Given}

/-- A name is not the mark for the end of the options, whatever stands behind it. -/
theorem append_ne_dashes (hname : Names switch name) (rest : String) :
    (name ++ rest == "--") = false := by
  rw [beq_eq_false_iff_ne, ne_eq, ← String.toList_inj, String.toList_append]
  cases hname with
  | long =>
    intro hsame
    have hnil : switch.long.toList ++ rest.toList = [] := by simpa using hsame
    exact switch.long_spelling.1 (List.append_eq_nil_iff.mp hnil).1
  | @letter letter hletter =>
    intro hsame
    have hdashes : '-' :: letter :: rest.toList = ['-', '-'] := by simpa using hsame
    exact (Switch.letter_unique hletter).1 (List.cons.inj (List.cons.inj hdashes).2).1

/-- A name is not the mark for the end of the options. -/
theorem ne_dashes (hname : Names switch name) : (name == "--") = false := by
  simpa using hname.append_ne_dashes ""

/-- A name alone is read as an option that stands alone or waits for its value. -/
theorem options?_eq (hname : Names switch name) (hknown : switch ∈ known) :
    options? known given name = some (if switch.standsAlone then
      (standalone given switch).map .complete else .ok (.waiting given switch)) := by
  cases hname with
  | long =>
    have hall : ∀ c ∈ switch.long.toList, (c != '=') = true := fun c hc =>
      bne_iff_ne.mpr fun hsame => switch.long_spelling.2 (hsame ▸ hc)
    simp [options?, longOption, List.takeWhile_eq_self_iff.mpr hall,
      List.dropWhile_eq_nil_iff.mpr hall, Switch.ofLong?_long hknown]
  | @letter letter hletter =>
    rw [options?_of_dash String.toList_ofList (Switch.letter_unique hletter).1, letters,
      Switch.ofLetter?_letter hknown hletter]
    cases hstands : switch.standsAlone with
    | true =>
      simp only [hstands, letters, ↓reduceIte]
      cases standalone given switch <;> rfl
    | false => simp [hstands]

/-- A name and a value behind an equals sign are read as an option with this value. -/
theorem options?_append (hname : Names switch name) (hknown : switch ∈ known)
    (hstands : switch.standsAlone = false) :
    options? known given (name ++ "=" ++ value) =
      some ((complete given switch value).map .complete) := by
  cases hname with
  | long =>
    have hall : ∀ c ∈ switch.long.toList, (c != '=') = true := fun c hc =>
      bne_iff_ne.mpr fun hsame => switch.long_spelling.2 (hsame ▸ hc)
    simp [options?, longOption, List.takeWhile_append_of_pos hall,
      List.dropWhile_append_of_pos hall, Switch.ofLong?_long hknown, hstands]
  | @letter letter hletter =>
    have hargument : (String.ofList ['-', letter] ++ "=" ++ value).toList =
        '-' :: letter :: '=' :: value.toList := by simp
    rw [options?_of_dash hargument (Switch.letter_unique hletter).1, letters,
      Switch.ofLetter?_letter hknown hletter]
    simp [hstands]

end Names

namespace Given

variable {given : Given} {switch : Switch}

/-- An option that stands alone is taken in without a value. -/
theorem take_of_standsAlone (hstands : switch.standsAlone = true) (value : String) :
    given.take switch value = given.take switch "" := by
  cases switch <;> first | rfl | cases hstands

/-- Options that are taken in come from the first of them and then the others. -/
theorem takeAll_cons (given : Given) (option : Switch × String) (options : List (Switch × String)) :
    given.takeAll (option :: options) =
      (given.take option.1 option.2).bind fun next => next.takeAll options :=
  List.foldlM_cons

/-- Options that are taken in come from the first ones and then the others. -/
theorem takeAll_append (given : Given) (first second : List (Switch × String)) :
    given.takeAll (first ++ second) =
      (given.takeAll first).bind fun next => next.takeAll second :=
  List.foldlM_append

end Given

/-- An option that stands alone is taken in whatever its value is. -/
theorem standalone_eq {known : List Switch} {switch : Switch} (hasks : Asks known switch)
    (hstands : switch.standsAlone = true) (given : Given) (value : String) :
    standalone given switch = complete given switch value := by
  obtain ⟨-, hhelp, hversion⟩ := hasks
  rw [complete, Given.take_of_standsAlone hstands]
  cases switch <;> first | rfl | exact absurd rfl hhelp | exact absurd rfl hversion

/-- The arguments that write an option: the only one is read as the option with its value, or the first
one waits for the second. -/
theorem Spells.read {known : List Switch} {option : Switch × String} {piece : List String}
    (hspells : Spells option piece) (hasks : Asks known option.1) (given : Given) :
    ∃ argument, (argument == "--") = false ∧
      (piece = [argument] ∧ options? known given argument =
          some ((complete given option.1 option.2).map .complete) ∨
        piece = [argument, option.2] ∧ isValue option.2 = true ∧
          options? known given argument = some (.ok (.waiting given option.1))) := by
  cases hspells with
  | @alone switch value name hstands hname =>
    refine ⟨name, hname.ne_dashes, .inl ⟨rfl, ?_⟩⟩
    rw [hname.options?_eq hasks.1, if_pos hstands, standalone_eq hasks hstands]
  | @joined switch value name hstands hname =>
    refine ⟨_, ?_, .inl ⟨rfl, hname.options?_append hasks.1 hstands⟩⟩
    rw [String.append_assoc]
    exact hname.append_ne_dashes _
  | @apart switch value name hstands hname hvalue =>
    refine ⟨name, hname.ne_dashes, .inr ⟨rfl, hvalue, ?_⟩⟩
    rw [hname.options?_eq hasks.1, hstands]
    rfl

section

variable {command : Command} {option : Switch × String} {options : List (Switch × String)}
  {piece : List String} {pieces : List (List String)}

/-- An option that is written behind a command is taken in, and then the other arguments are read. -/
theorem behindCommand_spells (hspells : Spells option piece)
    (hasks : Asks (Switch.known (some command)) option.1) (given : Given) (rest : List String) :
    behindCommand command given (piece ++ rest) =
      match given.take option.1 option.2 with
      | some next => behindCommand command next rest
      | none => .error .misuse := by
  obtain ⟨argument, hdashes, ⟨rfl, hread⟩ | ⟨rfl, hvalue, hread⟩⟩ := hspells.read hasks given
  · rw [List.singleton_append, behindCommand, hdashes, hread, complete]
    cases given.take option.1 option.2 <;> rfl
  · rw [List.cons_append, List.singleton_append, behindCommand, hdashes, hread]
    simp only [hvalue, complete, ↓reduceIte]
    cases given.take option.1 option.2 <;> rfl

/-- An option that is written in front of a command is taken in, and then the other arguments are
read. -/
theorem beforeCommand_spells (hspells : Spells option piece)
    (hasks : Asks (Switch.known none) option.1) (given : Given) (rest : List String) :
    beforeCommand given (piece ++ rest) =
      match given.take option.1 option.2 with
      | some next => beforeCommand next rest
      | none => .error .misuse := by
  obtain ⟨argument, hdashes, ⟨rfl, hread⟩ | ⟨rfl, hvalue, hread⟩⟩ := hspells.read hasks given
  · rw [List.singleton_append, beforeCommand, hdashes, hread, complete]
    cases given.take option.1 option.2 <;> rfl
  · rw [List.cons_append, List.singleton_append, beforeCommand, hdashes, hread]
    simp only [hvalue, complete, ↓reduceIte]
    cases given.take option.1 option.2 <;> rfl

/-- If a reader takes in one option, it takes in one after another. -/
theorem read_append {α : Type} {known : List Switch} {read : Given → List String → Except Stop α}
    (hread : ∀ {option piece}, Spells option piece → Asks known option.1 → ∀ given rest,
      read given (piece ++ rest) = match given.take option.1 option.2 with
        | some next => read next rest
        | none => .error .misuse)
    (hspells : List.Forall₂ Spells options pieces) (hasks : ∀ option ∈ options, Asks known option.1)
    (given : Given) (rest : List String) :
    read given (pieces.flatten ++ rest) = match given.takeAll options with
      | some next => read next rest
      | none => .error .misuse := by
  induction hspells generalizing given with
  | nil => rfl
  | cons hpiece hpieces ih =>
    obtain ⟨hoption, hrest⟩ := List.forall_mem_cons.mp hasks
    rw [List.flatten_cons, List.append_assoc, hread hpiece hoption, Given.takeAll_cons]
    cases given.take _ _ with
    | none => rfl
    | some next => exact ih hrest next

end

/-- Behind the word for a command its own options are read. -/
theorem beforeCommand_name (given : Given) (command : Command) (rest : List String) :
    beforeCommand given (command.name :: rest) = (do
      let behind ← behindCommand command {} rest
      if behind.isConsistent then return ⟨command, behind.under given⟩ else throw .misuse) := by
  cases command <;> rfl

/-- The ways to write a template behind all options: bare, if it does not look like an option, or behind
two dashes. -/
inductive SpellsTemplate : Option String → List String → Prop where
  | missing : SpellsTemplate none []
  | bare {text : String} (hvalue : isValue text = true) : SpellsTemplate (some text) [text]
  | behindDashes {text : String} : SpellsTemplate (some text) ["--", text]

namespace Given

/-- Take in a template, if there is one. -/
def takeTemplate? (given : Given) : Option String → Option Given
  | some text => given.takeTemplate text
  | none => some given

/-- What a command line comes to when its options are taken in turn. -/
def ofOptions? (before behind : List (Switch × String)) (template : Option String) :
    Option Given := do
  let above ← takeAll {} before
  let given ← takeAll {} behind
  let given ← given.takeTemplate? template
  if given.isConsistent then some (given.under above) else none

end Given

/-- An argument that does not look like an option is none. -/
theorem options?_of_isValue {text : String} (hvalue : isValue text = true) (known : List Switch)
    (given : Given) : options? known given text = none := by
  rw [isValue] at hvalue
  rw [options?]
  split at hvalue
  · next hdash =>
    rw [hdash]
    rfl
  · cases hvalue
  · next hdash hother =>
    split
    · next hlist => exact absurd hlist (hother _)
    · next hlist => exact absurd hlist hdash
    · next hlist => exact absurd hlist (hother _)
    · rfl

/-- Where the options end, the template is read. -/
theorem behindCommand_template {template : Option String} {last : List String}
    (hlast : SpellsTemplate template last) (command : Command) (given : Given) :
    behindCommand command given last =
      match given.takeTemplate? template with
      | some given => .ok given
      | none => .error .misuse := by
  cases hlast with
  | missing => rfl
  | @bare text hvalue =>
    have hdashes : (text == "--") = false := by
      rw [beq_eq_false_iff_ne]
      rintro rfl
      exact absurd hvalue (by decide)
    rw [behindCommand, hdashes, options?_of_isValue hvalue, Given.takeTemplate?]
    cases given.takeTemplate text <;> rfl
  | @behindDashes text =>
    rw [behindCommand, if_pos (by rfl), List.foldlM_cons, Given.takeTemplate?]
    cases given.takeTemplate text <;> rfl

/-- A command line leads to what its options come to when they are taken in turn, and if they cannot be
taken, it is misused. -/
theorem parse_spelled {before behind : List (Switch × String)} {front back : List (List String)}
    {template : Option String} {last : List String} {command : Command}
    (hfront : List.Forall₂ Spells before front) (hback : List.Forall₂ Spells behind back)
    (hlast : SpellsTemplate template last)
    (hbefore : ∀ option ∈ before, Asks (Switch.known none) option.1)
    (hbehind : ∀ option ∈ behind, Asks (Switch.known (some command)) option.1) :
    parse (front.flatten ++ command.name :: (back.flatten ++ last)) =
      match Given.ofOptions? before behind template with
      | some given => .ok ⟨command, given⟩
      | none => .error .misuse := by
  rw [parse, read_append beforeCommand_spells hfront hbefore, Given.ofOptions?]
  cases Given.takeAll {} before with
  | none => rfl
  | some above =>
    simp only [Option.bind_eq_bind, Option.bind_some, beforeCommand_name,
      read_append behindCommand_spells hback hbehind]
    cases Given.takeAll {} behind with
    | none => rfl
    | some given =>
      simp only [Option.bind_some, behindCommand_template hlast]
      cases given.takeTemplate? template with
      | none => rfl
      | some given =>
        cases hconsistent : given.isConsistent <;> simp [hconsistent, bind, Except.bind, pure,
          Except.pure, throw, throwThe, MonadExceptOf.throw]

/-- The decimal digits of a number are read as this number, if it fits 64 bits. -/
theorem number?_toString {number : Nat} (hnumber : number < UInt64.size) :
    number? (toString number) = some number := by
  have hdigits : (toString number).toList = Nat.toDigits 10 number := by
    rw [Nat.toString_eq_repr, Nat.toList_repr]
  have hall : ∀ c ∈ Nat.toDigits 10 number, c.isDigit = true := fun c hc =>
    Nat.isDigit_of_mem_toDigits (by decide) (by decide) hc
  have hvalue : Text.decimalOf (Nat.toDigits 10 number) = number := by
    have hread := @Nat.ofDigitChars_ten_toDigits number
    simp only [Nat.ofDigitChars_eq_foldl, Nat.mul_comm 10] at hread
    exact hread
  have hplus (rest : List Char) : Nat.toDigits 10 number ≠ '+' :: rest := by
    intro hsigned
    have hsign := hall '+' (hsigned ▸ List.mem_cons_self)
    exact absurd hsign (by decide)
  rw [number?, hdigits]
  split
  · next rest hsigned => exact absurd hsigned (hplus rest)
  · simp [hvalue, hnumber, Nat.toDigits_ne_nil, List.all_eq_true.mpr hall]

/-- The word for a form of results. -/
def Format.name : Format → String
  | .text => "text"
  | .json => "json"

/-- The word for a form is read as this form. -/
theorem Format.ofName?_name (format : Format) : ofName? format.name = some format := by
  cases format <;> rfl

namespace Request

/-- The command of a request. -/
def command : Request → Command
  | .spin .. => .spin
  | .validate .. => .validate
  | .audit .. => .audit

/-- The options of a single command that make a request of it. -/
def options : Request → List (Switch × String)
  | .spin count raw seed format =>
    count.toList.map (fun number => (.count, toString number)) ++
      (if raw then [(.raw, "")] else []) ++
      seed.toList.map (fun number => (.seed, toString number)) ++
      format.toList.map (fun format => (.format, format.name))
  | .validate checkPlaceholders strict =>
    (if checkPlaceholders then [(.placeholdersCheck, "")] else []) ++
      (if strict then [(.strict, "")] else [])
  | .audit format => format.toList.map (fun format => (.format, format.name))

/-- The numbers of a request have 64 bits. -/
def Fits : Request → Prop
  | .spin count _ seed _ =>
    (∀ number ∈ count, number < UInt64.size) ∧ ∀ number ∈ seed, number < UInt64.size
  | _ => True

end Request

namespace Input

/-- The options that all commands share, as they are given. -/
def ofGiven (given : Given) : Input where
  template := given.template
  file := given.file
  document := given.document
  assignments := given.assignments
  placeholders := given.placeholders
  config := given.config
  overrides := given.overrides
  verbose := given.verbose

/-- The options that make an input: those that say where it comes from, and those that stand in front
of a command as well. -/
def switches : List Switch :=
  Switch.input ++ [.config, .set, .verbose]

/-- What a command line comes to when its shared options are taken in turn. -/
def ofOptions? (before shared : List (Switch × String)) (template : Option String) :
    Option Input :=
  (Given.ofOptions? before shared template).map ofGiven

variable {options : List (Switch × String)} {final : Given} {template : Option String}

/-- Taking in a shared option makes one input of another. -/
theorem eq_given_of_take {switch : Switch} {value : String} (hshared : switch ∈ switches)
    (input : Input) (htaken : input.given.take switch value = some final) :
    final = (ofGiven final).given := by
  cases switch with
  | file | document | placeholders | config =>
    obtain ⟨stored, rfl⟩ := Given.exists_of_once htaken
    rfl
  | placeholder | set =>
    obtain ⟨pair, -, rfl⟩ := Option.map_eq_some_iff.mp htaken
    rfl
  | verbose =>
    obtain rfl := Given.eq_of_raiseFlag htaken
    rfl
  | _ => exact absurd hshared (by decide)

/-- Taking in shared options makes one input of another. -/
theorem eq_given_of_takeAll (hshared : ∀ option ∈ options, option.1 ∈ switches) (input : Input)
    (htaken : input.given.takeAll options = some final) : final = (ofGiven final).given := by
  induction options generalizing input with
  | nil =>
    cases htaken
    rfl
  | cons option options ih =>
    obtain ⟨hoption, hrest⟩ := List.forall_mem_cons.mp hshared
    rw [Given.takeAll_cons] at htaken
    obtain ⟨next, hnext, hothers⟩ := Option.bind_eq_some_iff.mp htaken
    rw [eq_given_of_take hoption input hnext] at hothers
    exact ih hrest _ hothers

/-- What is taken in once is stored, if there is something to take in. -/
theorem takeAll_toList {α : Type} {switch : Switch} {write : α → String}
    (store : Option α → Given) {value : Option α}
    (htake : ∀ item ∈ value, (store none).take switch (write item) = some (store (some item))) :
    (store none).takeAll (value.toList.map fun item => (switch, write item)) =
      some (store value) := by
  cases value with
  | none => rfl
  | some item =>
    rw [Option.toList_some, List.map_singleton, Given.takeAll_cons, htake item rfl]
    rfl

/-- The options of a request make it of any input. -/
theorem takeAll_options {request : Request} (hfits : request.Fits) (input : Input) :
    input.given.takeAll request.options = some (input.invocation request).given := by
  cases request with
  | spin count raw seed format =>
    obtain ⟨hcount, hseed⟩ := hfits
    have htakeCount : input.given.takeAll
        (count.toList.map fun number => (.count, toString number)) =
          some { input.given with count := count } := by
      apply takeAll_toList fun count => { input.given with count := count }
      intro number hnumber
      change Given.once none (number? (toString number)) _ = _
      rw [number?_toString (hcount number hnumber)]
      rfl
    have htakeRaw : Given.takeAll { input.given with count := count }
        (if raw then [(.raw, "")] else []) =
          some { input.given with count := count, raw := raw } := by
      cases raw <;> rfl
    have htakeSeed : Given.takeAll { input.given with count := count, raw := raw }
        (seed.toList.map fun number => (.seed, toString number)) =
          some { input.given with count := count, raw := raw, seed := seed } := by
      apply takeAll_toList fun seed => { input.given with count := count, raw := raw, seed := seed }
      intro number hnumber
      change Given.once none (number? (toString number)) _ = _
      rw [number?_toString (hseed number hnumber)]
      rfl
    have htakeFormat : Given.takeAll { input.given with count := count, raw := raw, seed := seed }
        (format.toList.map fun format => (.format, format.name)) =
          some { input.given with count := count, raw := raw, seed := seed, format := format } := by
      apply takeAll_toList fun format =>
        { input.given with count := count, raw := raw, seed := seed, format := format }
      intro format _
      change Given.once none (Format.ofName? format.name) _ = _
      rw [Format.ofName?_name]
      rfl
    rw [Request.options, Given.takeAll_append, Given.takeAll_append, Given.takeAll_append,
      htakeCount, Option.bind_some, htakeRaw, Option.bind_some, htakeSeed, Option.bind_some,
      htakeFormat]
    rfl
  | validate checkPlaceholders strict => cases checkPlaceholders <;> cases strict <;> rfl
  | audit format => cases format with
    | none => rfl
    | some format => cases format <;> rfl

/-- A request takes in a template as its input does. -/
theorem takeTemplate?_invocation (input : Input) (request : Request) (template : Option String) :
    (input.invocation request).given.takeTemplate? template =
      (input.given.takeTemplate? template).map fun given =>
        ((ofGiven given).invocation request).given := by
  cases template with
  | none => cases request <;> rfl
  | some text =>
    obtain ⟨_ | first, _, _, _, _, _, _, _⟩ := input <;> cases request <;> rfl

/-- A request has as many templates as its input. -/
theorem isConsistent_invocation (input : Input) (request : Request) :
    (input.invocation request).given.isConsistent = input.given.isConsistent := by
  cases request <;> rfl

/-- A request takes over what stands in front of the command as its input does. -/
theorem under_invocation (given above : Given) (request : Request) :
    ((ofGiven given).invocation request).given.under above =
      ((ofGiven (given.under above)).invocation request).given := by
  cases request <;> rfl

/-- A template is not an assignment. -/
theorem assignments_takeTemplate? {given final : Given}
    (htaken : given.takeTemplate? template = some final) :
    final.assignments = given.assignments := by
  cases template with
  | none =>
    cases htaken
    rfl
  | some text =>
    obtain ⟨stored, rfl⟩ := Given.exists_of_once htaken
    rfl

/-- The assignments of an input are those of its shared options, in their order. -/
theorem assignments_of_ofOptions? {before shared : List (Switch × String)} {input : Input}
    (hinput : ofOptions? before shared template = some input) :
    input.assignments = shared.filterMap Given.assigned? := by
  obtain ⟨merged, hmerged, rfl⟩ := Option.map_eq_some_iff.mp hinput
  obtain ⟨above, -, hbehind⟩ := Option.bind_eq_some_iff.mp hmerged
  obtain ⟨given, hgiven, htemplate⟩ := Option.bind_eq_some_iff.mp hbehind
  obtain ⟨final, hfinal, hconsistent⟩ := Option.bind_eq_some_iff.mp htemplate
  rw [Option.ite_none_right_eq_some] at hconsistent
  obtain ⟨-, hunder⟩ := hconsistent
  obtain rfl := Option.some.inj hunder
  calc final.assignments = given.assignments := assignments_takeTemplate? hfinal
    _ = [] ++ shared.filterMap Given.assigned? := Given.assignments_takeAll hgiven
    _ = shared.filterMap Given.assigned? := List.nil_append _

/-- With the options of a request, a command line comes to this request of the input that its shared
options make. -/
theorem ofOptions?_request {before shared : List (Switch × String)} {request : Request}
    (hshared : ∀ option ∈ shared, option.1 ∈ switches) (hfits : request.Fits) :
    Given.ofOptions? before (shared ++ request.options) template =
      (ofOptions? before shared template).map fun input => (input.invocation request).given := by
  rw [ofOptions?, Given.ofOptions?, Given.ofOptions?, Given.takeAll_append]
  cases Given.takeAll {} before with
  | none => rfl
  | some above =>
    simp only [Option.bind_eq_bind, Option.bind_some]
    cases htaken : Given.takeAll {} shared with
    | none => rfl
    | some given =>
      have hgiven : given = (ofGiven given).given := eq_given_of_takeAll hshared {} htaken
      rw [Option.bind_some, Option.bind_some, hgiven, takeAll_options hfits, Option.bind_some,
        takeTemplate?_invocation]
      cases (ofGiven given).given.takeTemplate? template with
      | none => rfl
      | some final =>
        simp only [Option.map_some, Option.bind_some, isConsistent_invocation, under_invocation]
        change _ = Option.map _ (Option.map ofGiven (if (ofGiven final).given.isConsistent then
          some (final.under above) else none))
        cases (ofGiven final).given.isConsistent <;> rfl

/-- What may stand in front of a command asks for something there. -/
theorem asks_before {switch : Switch} (hswitch : switch ∈ [Switch.config, .set, .verbose]) :
    Asks (Switch.known none) switch := by
  have hall : ∀ switch ∈ [Switch.config, .set, .verbose],
      switch ∈ Switch.known none ∧ switch ≠ .help ∧ switch ≠ .version := by decide
  exact hall switch hswitch

/-- A shared option asks for something behind every command. -/
theorem asks_shared {switch : Switch} (hswitch : switch ∈ switches) (command : Command) :
    Asks (Switch.known (some command)) switch := by
  have hall : ∀ switch ∈ switches, switch ∈ Switch.known (some command) ∧
      switch ≠ .help ∧ switch ≠ .version := by cases command <;> decide
  exact hall switch hswitch

/-- The options of a request ask for something behind its command. -/
theorem asks_options (request : Request) :
    ∀ option ∈ request.options, Asks (Switch.known (some request.command)) option.1 := by
  have hall : ∀ option ∈ request.options, option.1 ∈ Switch.known (some request.command) ∧
      option.1 ≠ .help ∧ option.1 ≠ .version := by
    cases request with
    | spin count raw seed format =>
      cases count <;> cases raw <;> cases seed <;> cases format <;>
        simp [Request.options, Request.command] <;> decide
    | validate checkPlaceholders strict =>
      cases checkPlaceholders <;> cases strict <;> decide
    | audit format => cases format with
      | none => simp [Request.options]
      | some format => cases format <;> decide
  exact hall

/-- A command line that writes shared options and those of a request makes this request of the input of
its shared options. So all commands start from one input, or the command line is misused whichever
command it is for. -/
theorem parse_request {before shared : List (Switch × String)} {front back : List (List String)}
    {last : List String} {request : Request}
    (hfront : List.Forall₂ Spells before front)
    (hback : List.Forall₂ Spells (shared ++ request.options) back)
    (hlast : SpellsTemplate template last)
    (hbefore : ∀ option ∈ before, option.1 ∈ [Switch.config, .set, .verbose])
    (hshared : ∀ option ∈ shared, option.1 ∈ switches) (hfits : request.Fits) :
    parse (front.flatten ++ request.command.name :: (back.flatten ++ last)) =
      match ofOptions? before shared template with
      | some input => .ok (input.invocation request)
      | none => .error .misuse := by
  have hasks : ∀ option ∈ shared ++ request.options,
      Asks (Switch.known (some request.command)) option.1 :=
    List.forall_mem_append.mpr
      ⟨fun option hoption => asks_shared (hshared option hoption) _, asks_options request⟩
  rw [parse_spelled hfront hback hlast (fun option hoption => asks_before (hbefore option hoption))
    hasks, ofOptions?_request hshared hfits]
  cases ofOptions? before shared template with
  | none => rfl
  | some input => cases request <;> rfl

end Input

end Spintax.CommandLine
