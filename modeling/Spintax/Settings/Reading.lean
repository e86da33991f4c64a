import Spintax.Settings.Value
import Spintax.Markers.Basic
import Spintax.Text.Lowercase
import Spintax.Text.Reading

/-!
# Settings with types

The settings as records: the four markers and the options of spinning and validating. A fault of a
single setting names its place; a fault of a whole record does not. Records may also be given as
lists, field by field.
-/

namespace Spintax

/-- Why settings could not be had. -/
inductive SettingsFault where
  /-- The key of an override is no path. -/
  | badPath
  | missingFile
  /-- A file is no TOML. -/
  | unreadableFile
  | wrongType (key : String) (found : Found) (expected : String)
  | misshapen (fault : ShapeFault)
deriving DecidableEq, Repr

/-- What a fault of a value says; faults of files and paths have no text of their own. -/
def SettingsFault.message : SettingsFault → String
  | .wrongType _ found expected => (ShapeFault.wrongType found expected).message
  | .misshapen fault => fault.message
  | _ => ""

namespace Setting

/-- Texts that stand for truth, in lower case. -/
def yesWords : List String :=
  ["true", "on", "yes"]

/-- Texts that stand for falsehood, in lower case. -/
def noWords : List String :=
  ["false", "off", "no"]

/-- Read a truth value: numbers other than zero are true, and so are some words. -/
def toBool (key : String) (value : Setting) : Except SettingsFault Bool :=
  match value with
  | .boolean value => .ok value
  | .integer value => .ok (value != 0)
  | .float (.finite _ significand _) => .ok (significand != 0)
  | .float _ => .ok true
  | .text written =>
    let small := Text.lowercase written
    if small == "1" || yesWords.contains small then .ok true
    else if small == "0" || noWords.contains small then .ok false
    else .error (.wrongType key (.text small) "a boolean")
  | other => .error (.wrongType key other.found "a boolean")

/-- The number that a text of digits writes, perhaps behind a plus sign, if it fits 64 bits. -/
def wordOf? (text : String) : Option UInt64 :=
  let digits := match text.toList with
    | '+' :: rest => rest
    | cs => cs
  if digits.isEmpty || !digits.all Char.isDigit then none
  else if Text.decimalOf digits < UInt64.size then some (UInt64.ofNat (Text.decimalOf digits))
  else none

/-- The 64-bit number nearest to a floating-point number. -/
def clampedCount (value : Binary64) : UInt64 :=
  match value.round? with
  | some rounded => UInt64.ofNat (min rounded.toNat (UInt64.size - 1))
  | none => UInt64.ofNat (if value == .infinite false then UInt64.size - 1 else 0)

/-- Read a count, which has 64 bits: floating-point numbers are rounded, and truth values and their
words are one or zero. -/
def toCount (key : String) (value : Setting) : Except SettingsFault UInt64 :=
  match value with
  | .integer value =>
    if 0 ≤ value && value.toNat < UInt64.size then .ok (UInt64.ofNat value.toNat)
    else .error (.wrongType key (.wideInteger value) "an unsigned 64 bit or less integer")
  | .boolean value => .ok value.toUInt64
  | .float value => .ok (clampedCount value)
  | .text written =>
    let small := Text.lowercase written
    if yesWords.contains small then .ok true.toUInt64
    else if noWords.contains small then .ok false.toUInt64
    else
      match wordOf? written with
      | some number => .ok number
      | none => .error (.wrongType key (.text written) "an integer")
  | other => .error (.wrongType key other.found "an integer")

/-- Read a text; truth values and numbers are read as they are written. -/
def toText (key : String) (value : Setting) : Except SettingsFault String :=
  match value with
  | .text written => .ok written
  | .boolean value => .ok (if value then "true" else "false")
  | .integer value => .ok (toString value)
  | .float value => .ok value.text
  | other => .error (.wrongType key other.found "a string")

end Setting

/-- How a record of settings is laid out: its key, its name in messages, the keys of its fields in
declaration order, and whether keys of no field are faults. -/
structure RecordShape where
  key : String
  title : String
  fields : List String
  isClosed : Bool

namespace RecordShape

/-- The fields that a table gives, each read by `read` with its place. -/
def readEntries {α : Type} (shape : RecordShape)
    (read : (field place : String) → Setting → Except SettingsFault α) :
    List (String × Setting) → Except SettingsFault (List (String × α))
  | [] => .ok []
  | (name, value) :: rest => do
    if shape.fields.contains name then
      let field ← read name (shape.key ++ "." ++ name) value
      return (name, field) :: (← shape.readEntries read rest)
    else if shape.isClosed then
      throw (.misshapen (.unknownField name shape.fields))
    else
      shape.readEntries read rest

/-- The fields that a list gives, from the one at `index` on. -/
def readItems {α : Type} (shape : RecordShape)
    (read : (field place : String) → Setting → Except SettingsFault α) (index : Nat) :
    (fields : List String) → List Setting → Except SettingsFault (List (String × α))
  | [], _ => .ok []
  | _ :: _, [] =>
    .error (.misshapen (.wrongLength index
      ("struct " ++ shape.title ++ " with " ++ toString shape.fields.length ++ " elements")))
  | name :: fields, value :: rest => do
    let field ← read name (shape.key ++ "[" ++ toString index ++ "]") value
    return (name, field) :: (← shape.readItems read (index + 1) fields rest)

/-- The fields of a record, each by its key. -/
def readFields {α : Type} (shape : RecordShape)
    (read : (field place : String) → Setting → Except SettingsFault α) (value : Setting) :
    Except SettingsFault (List (String × α)) :=
  match value with
  | .table entries => shape.readEntries read entries
  | .list items => shape.readItems read 0 shape.fields items
  | other => .error (.misshapen (.wrongType other.foundAsRecord ("struct " ++ shape.title)))

end RecordShape

/-- A field that may not be missing. -/
def requireField {α : Type} (fields : List (String × α)) (name : String) :
    Except SettingsFault α :=
  match fields.lookup name with
  | some value => .ok value
  | none => .error (.misshapen (.missingField name))

/-- The layout of the markers. -/
def MarkerTexts.shape : RecordShape :=
  ⟨"markers", "MarkerSpec", Role.all.map Role.key, true⟩

/-- Read the markers from a setting. -/
def MarkerTexts.ofSetting (value : Setting) : Except SettingsFault MarkerTexts := do
  let fields ← shape.readFields (fun _ place value => value.toText place) value
  let text (role : Role) := requireField fields role.key
  return ⟨← text .opening, ← text .closing, ← text .separator, ← text .placeholder⟩

/-- The options of spinning and validating. -/
structure SpinDefaults where
  substitute : Bool := true
  checkPlaceholders : Bool := false
  strict : Bool := false
  count : UInt64 := UInt64.ofNat 1
deriving DecidableEq, Repr

namespace SpinDefaults

/-- The layout of the options. -/
def shape : RecordShape :=
  ⟨"spin", "SpinOptions", ["substitute", "check_placeholders", "strict", "count"], false⟩

/-- An option that was read: a truth value or a count. -/
inductive Field where
  | flag (value : Bool)
  | number (value : UInt64)

/-- An option as a truth value. -/
def Field.toBool : Field → Bool
  | .flag value => value
  | .number value => value.toNat != 0

/-- An option as a count. -/
def Field.toCount : Field → UInt64
  | .flag value => value.toUInt64
  | .number value => value

/-- Read an option by its key. -/
def readField (name place : String) (value : Setting) : Except SettingsFault Field :=
  if name == "count" then (value.toCount place).map .number else (value.toBool place).map .flag

/-- Read the options from a setting. -/
def ofSetting (value : Setting) : Except SettingsFault SpinDefaults := do
  let fields ← shape.readFields readField value
  let field (name : String) := requireField fields name
  return ⟨(← field "substitute").toBool, (← field "check_placeholders").toBool,
    (← field "strict").toBool, (← field "count").toCount⟩

end SpinDefaults

/-- All settings. -/
structure Settings where
  markers : MarkerTexts := {}
  spin : SpinDefaults := {}
deriving DecidableEq, Repr

namespace Settings

/-- The marker set of the settings. -/
def usableMarkers (settings : Settings) : Except Refusal Markers :=
  Markers.ofTexts settings.markers

/-- Read the settings from the entries of all layers; other keys are left alone. -/
def ofEntries (entries : Entries Setting) : Except SettingsFault Settings := do
  let markers ← requireField entries "markers"
  let spin ← requireField entries "spin"
  return ⟨← MarkerTexts.ofSetting markers, ← SpinDefaults.ofSetting spin⟩

end Settings

end Spintax
