import Spintax.Json.Parser
import Spintax.Spinner
import Spintax.Yaml.Value

/-!
# Documents

A document is an object with a template and, if wanted, placeholders and markers. Its checks run in
the order document, template, placeholders, markers, whatever the order of its members.
-/

namespace Spintax

/-- A template with its placeholders, and with markers if the document chooses them. -/
structure Document where
  template : String
  placeholders : Table := .empty
  markers : Option Markers := none

namespace Document

/-- The member names of a document. -/
def keys : List String :=
  ["template", "placeholders", "markers"]

/-- The template of an object with these members. -/
def templateOf (members : Entries Json) : Except Refusal String :=
  match members.find? "template" with
  | some (.string text) => .ok text
  | some other => .error (.templateNotString other.kind)
  | none => .error .templateMissing

/-- The placeholders of an object with these members; none if there is no such member. -/
def placeholdersOf (members : Entries Json) : Except Refusal Table :=
  match members.find? "placeholders" with
  | some value => Table.ofJson value
  | none => .ok .empty

/-- The markers of an object with these members, if there is such a member. -/
def markersOf (members : Entries Json) : Except Refusal (Option Markers) :=
  match members.find? "markers" with
  | some value => (Markers.ofJson value).map some
  | none => .ok none

/-- Read a document from a loosely typed value. -/
def ofJson : Json → Except Refusal Document
  | .object members =>
    match members.find? fun entry => !keys.contains entry.1 with
    | some entry => .error (.unknownMember entry.1)
    | none => do
      let template ← templateOf members
      let placeholders ← placeholdersOf members
      return ⟨template, placeholders, ← markersOf members⟩
  | other => .error (.documentNotObject other.kind)

/-- The formats in which documents are written. -/
inductive Format where
  | json | yaml
deriving DecidableEq, Repr

/-- The value that a text writes in a format. -/
def Format.parse? (format : Format) (source : String) : Option Json :=
  match format with
  | .json => Json.parse? source
  | .yaml => Yaml.parse? source

/-- Read a document from text in a format. -/
def read (format : Format) (source : String) : Except Refusal Document :=
  match format.parse? source with
  | some value => ofJson value
  | none => .error .unreadableDocument

/-- The spinner of a document, with the default markers if it chooses none. -/
def spinner (document : Document) : Spinner :=
  ⟨document.template, document.placeholders, document.markers.getD .default⟩

end Document

end Spintax
