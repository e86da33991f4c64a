import Spintax.Json.Basic
import Spintax.Markers.Role

/-!
# Faults

What can go wrong: an input that is refused because of its shape, and a template whose groups do
not pair up. A fault is its cause; the wording is in one function for each kind.
-/

namespace Spintax

/-- The parts of an input that a refusal can blame. -/
inductive Field where
  | document | template | placeholders | markers
deriving DecidableEq, Repr

/-- The name of a part, as messages write it. -/
def Field.name : Field → String
  | .document => "document"
  | .template => "template"
  | .placeholders => "placeholders"
  | .markers => "markers"

/-- Why an input was refused. -/
inductive Refusal where
  /-- The text is not in the format it was read as. -/
  | unreadableDocument
  | documentNotObject (found : Json.Kind)
  | unknownMember (key : String)
  | templateMissing
  | templateNotString (found : Json.Kind)
  | placeholdersNotObject (found : Json.Kind)
  | valueNotString (name : String) (found : Json.Kind)
  | markersNotObject (found : Json.Kind)
  | markerNotString (key : String) (found : Json.Kind)
  | unknownMarkers (keys : List String)
  | missingMarkers (roles : List Role)
  | emptyMarker (role : Role)
deriving DecidableEq, Repr

namespace Refusal

/-- The part of the input that is blamed. -/
def field : Refusal → Field
  | .unreadableDocument => .document
  | .documentNotObject _ => .document
  | .unknownMember _ => .document
  | .templateMissing => .template
  | .templateNotString _ => .template
  | .placeholdersNotObject _ => .placeholders
  | .valueNotString _ _ => .placeholders
  | .markersNotObject _ => .markers
  | .markerNotString _ _ => .markers
  | .unknownMarkers _ => .markers
  | .missingMarkers _ => .markers
  | .emptyMarker _ => .markers

/-- Keys in backquotes, separated by commas. -/
def quoteKeys (keys : List String) : String :=
  ", ".intercalate (keys.map fun key => "`" ++ key ++ "`")

/-- What is wrong with the blamed part. -/
def reason : Refusal → String
  | .unreadableDocument => "<syntax>"
  | .documentNotObject found => "expected an object, found " ++ found.name
  | .unknownMember key => "unknown key `" ++ key ++ "`"
  | .templateMissing => "missing"
  | .templateNotString found => "expected a string, found " ++ found.name
  | .placeholdersNotObject found => "expected an object, found " ++ found.name
  | .valueNotString name found =>
    "value of `" ++ name ++ "` must be a string, found " ++ found.name
  | .markersNotObject found => "expected an object, found " ++ found.name
  | .markerNotString key found => "marker `" ++ key ++ "` must be a string, found " ++ found.name
  | .unknownMarkers keys => "unknown key(s) " ++ quoteKeys keys
  | .missingMarkers roles => "missing key(s) " ++ quoteKeys (roles.map Role.key)
  | .emptyMarker role => "marker `" ++ role.key ++ "` must not be empty"

/-- The whole message. -/
def message (refusal : Refusal) : String :=
  "invalid " ++ refusal.field.name ++ ": " ++ refusal.reason

end Refusal

/-- Which side of a group was left without a partner. -/
inductive Unmatched where
  | opening | closing
deriving DecidableEq, Repr

/-- The name of the marker in messages. -/
def Unmatched.name : Unmatched → String
  | .opening => "open"
  | .closing => "close"

/-- A group marker without a partner, at a byte offset of the text it stands in. -/
structure Malformed where
  side : Unmatched
  position : Nat
deriving DecidableEq, Repr

/-- The whole message. -/
def Malformed.message (fault : Malformed) : String :=
  s!"malformed template: unmatched {fault.side.name} marker at byte {fault.position}"

/-- Why an operation of a spinner gave no result. -/
inductive SpinError where
  | refused (refusal : Refusal)
  | malformed (fault : Malformed)
  /-- The random source offered no usable draw for as long as the choice was willing to wait. -/
  | stalled
deriving DecidableEq, Repr

/-- The whole message. -/
def SpinError.message : SpinError → String
  | .refused refusal => refusal.message
  | .malformed fault => fault.message
  | .stalled => "the random source offered no usable draw"

namespace Except

variable {ε α β : Type}

/-- What comes of two steps comes of the second, done with what comes of the first. -/
theorem bind_eq_ok_iff {first : Except ε α} {next : α → Except ε β} {result : β} :
    first >>= next = .ok result ↔ ∃ value, first = .ok value ∧ next value = .ok result := by
  cases first with
  | error fault =>
    constructor
    · intro hresult
      cases hresult
    · rintro ⟨value, hvalue, -⟩
      cases hvalue
  | ok value =>
    constructor
    · exact fun hresult => ⟨value, rfl, hresult⟩
    · rintro ⟨value, ⟨⟩, hresult⟩
      exact hresult

/-- Two steps fail just when the first fails, or the second with what comes of the first. -/
theorem bind_eq_error_iff {first : Except ε α} {next : α → Except ε β} {fault : ε} :
    first >>= next = .error fault ↔
      first = .error fault ∨ ∃ value, first = .ok value ∧ next value = .error fault := by
  cases first with
  | error other =>
    rw [or_iff_left fun ⟨_, hvalue, _⟩ => by cases hvalue]
    exact ⟨fun hresult => congrArg Except.error (Except.error.inj hresult),
      fun hfirst => congrArg Except.error (Except.error.inj hfirst)⟩
  | ok value =>
    rw [or_iff_right fun hfirst => by cases hfirst]
    constructor
    · exact fun hresult => ⟨value, rfl, hresult⟩
    · rintro ⟨value, ⟨⟩, hresult⟩
      exact hresult

/-- A value that is returned is the one that comes of it. -/
theorem pure_eq_ok_iff {value result : α} :
    (pure value : Except ε α) = .ok result ↔ value = result :=
  ⟨fun hresult => Except.ok.inj hresult, fun hvalue => congrArg Except.ok hvalue⟩

end Except

end Spintax
