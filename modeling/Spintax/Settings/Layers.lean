import Spintax.Settings.Path
import Spintax.Settings.Reading
import Spintax.Toml.Document

/-!
# Layers of settings

Settings are built in layers: the defaults, which are the text of a file, then files in their order,
then overrides of single settings. Files are merged table by table, so one that sets a single option
leaves the others as they were. Overrides come last whenever they were given.

A table that has been read does not keep its entries in the order of writing, and the overrides are not
kept in the order in which they were given. In which order they are gone through is a part of the
layers. It matters when one file sets an option in two ways, in its table and under a path.
-/

namespace Spintax

/-- An order of going through what is kept without an order: the entries of a table, and the
overrides. -/
structure VisitingOrder where
  entries : Entries Setting → Entries Setting
  overrides : List (SettingPath × Setting) → List (SettingPath × Setting)
  entries_perm : ∀ items, (entries items).Perm items
  overrides_perm : ∀ items, (overrides items).Perm items

namespace VisitingOrder

/-- The order of writing. -/
def asWritten : VisitingOrder where
  entries items := items
  overrides items := items
  entries_perm _ := .refl _
  overrides_perm _ := .refl _

mutual

/-- A value with the entries of every table in the order of visiting. -/
def arrange (order : VisitingOrder) : Setting → Setting
  | .list items => .list (arrangeItems order items)
  | .table entries => .table (order.entries (arrangeEntries order entries))
  | value => value

/-- The values of a list, each arranged. -/
def arrangeItems (order : VisitingOrder) : List Setting → List Setting
  | [] => []
  | value :: rest => arrange order value :: arrangeItems order rest

/-- The entries of a table where they stand, the value of each arranged. -/
def arrangeEntries (order : VisitingOrder) : List (String × Setting) → List (String × Setting)
  | [] => []
  | (key, value) :: rest => (key, arrange order value) :: arrangeEntries order rest

end

end VisitingOrder

/-- Settings to be built: the texts of the files, in order, where `none` is a file that does not
exist, the overrides, one for each path, and the order of visiting. -/
structure Layers where
  files : List (Option String) := []
  overrides : List (SettingPath × Setting) := []
  order : VisitingOrder := .asWritten

namespace Layers

/-- The lines of the file of defaults. -/
def defaultLines : List String :=
  ["# Built-in defaults for textspin. User files passed with --config are layered on top.",
    "",
    "[markers]",
    "open = \"\x7b\"",
    "close = \"\x7d\"",
    "separator = \"|\"",
    "placeholder = \"~\"",
    "",
    "[spin]",
    "# Replace ~name~ references after resolving groups.",
    "substitute = true",
    "# Fail validation when a referenced placeholder is missing or invalid.",
    "check_placeholders = false",
    "# Also require every close marker to follow a matching open marker.",
    "strict = false",
    "# Number of samples produced by `textspin spin`.",
    "count = 1"]

/-- The text of the file of defaults. -/
def defaultText : String :=
  String.join (defaultLines.map fun line => line ++ "\n")

/-- The entries of the file of defaults. -/
def defaults : Entries Setting :=
  [("markers", .table (Role.all.map fun role => (role.key, .text (MarkerTexts.get {} role)))),
    ("spin", .table [("substitute", .boolean true), ("check_placeholders", .boolean false),
      ("strict", .boolean false), ("count", .integer 1)])]

/-- The file of defaults is TOML. -/
theorem parse?_defaultText : Toml.parse? defaultText = some defaults := by
  have lines : defaultText.toList = defaultLines.flatMap fun line => line.toList ++ ['\n'] := by
    rw [defaultText, String.toList_join, List.flatMap_map]
    simp only [String.toList_append]
    rfl
  rw [Toml.parse?, lines]
  decide +kernel

/-- Add a file above those before. -/
def addFile (layers : Layers) (content : Option String) : Layers :=
  { layers with files := layers.files ++ [content] }

/-- The pairs and one more, which takes the place of those with its key. -/
def supersede {κ α : Type} [DecidableEq κ] (pairs : List (κ × α)) (pair : κ × α) : List (κ × α) :=
  pairs.filter (fun other => other.1 ≠ pair.1) ++ [pair]

/-- Override the setting at a path, which has to be well-formed. -/
def override (layers : Layers) (key : String) (value : Setting) :
    Except SettingsFault Layers :=
  match SettingPath.parse? key with
  | some path => .ok { layers with overrides := supersede layers.overrides (path, value) }
  | none => .error .badPath

/-- Add overrides in order, up to the first whose key is no path. -/
def overrideAll (layers : Layers) (pairs : List (String × Setting)) :
    Except SettingsFault Layers :=
  pairs.foldlM (fun collected pair => collected.override pair.1 pair.2) layers

/-- Lay one setting of a file over a tree. A key that is a path sets the place it names. -/
def layEntry (root : Setting) (entry : String × Setting) : Setting :=
  match SettingPath.parse? entry.1 with
  | some path => path.set entry.2 root
  | none => (SettingPath.key entry.1).set entry.2 root

/-- Lay the settings of a file over a tree. -/
def lay (order : VisitingOrder) (root : Setting) (entries : Entries Setting) : Setting :=
  (order.entries (order.arrangeEntries entries)).foldl layEntry root

/-- The settings of a file. -/
def readFile : Option String → Except SettingsFault (Entries Setting)
  | some content =>
    match Toml.parse? content with
    | some entries => .ok entries
    | none => .error .unreadableFile
  | none => .error .missingFile

/-- The tree of all layers. -/
def tree (layers : Layers) : Except SettingsFault Setting := do
  let files ← (some defaultText :: layers.files).mapM readFile
  let merged := files.foldl (lay layers.order) (.table [])
  let overrides := layers.order.overrides layers.overrides
  return overrides.foldl (fun root entry => entry.1.set entry.2 root) merged

/-- Build the settings. -/
def settings (layers : Layers) : Except SettingsFault Settings := do
  Settings.ofEntries (← layers.tree).entries

end Layers

end Spintax
