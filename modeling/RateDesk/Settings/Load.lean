import RateDesk.Json.Reader
import RateDesk.Settings.Decode
import RateDesk.Settings.Environment
import RateDesk.Settings.Path
import RateDesk.Toml.Reader

/-!
# Loading settings

Settings come from a file, over which the environment is laid. Main definitions: `Files`,
`Files.find`, `Settings.loadFrom`, `Settings.load`.
-/

namespace RateDesk

inductive FileFormat where
  | toml
  | json
deriving DecidableEq, Repr

/-- What follows the last point in a file name of a format. -/
def FileFormat.suffix : FileFormat → String
  | toml => "toml"
  | json => "json"

/-- The files of a directory: their names and texts. -/
structure Files where
  texts : List (String × String)
deriving DecidableEq, Repr

namespace Files

def get? (fs : Files) (name : String) : Option String := fs.texts.lookup name

def formatOf? (name : String) : Option FileFormat :=
  [FileFormat.toml, .json].find? fun f =>
    (Text.afterPrefix? ("." ++ f.suffix).toList.reverse name.toList.reverse).any (!·.isEmpty)

/-- The file that a name means, with its format and text: the one with exactly this name, or else
the first one with the suffix of a format added. -/
def find (fs : Files) (name : String) : Except SettingsError (String × FileFormat × String) :=
  match fs.get? name with
  | some text =>
    match formatOf? name with
    | some f => .ok (name, f, text)
    | none => .error (.unknownFormat name)
  | none =>
    let candidates := [FileFormat.toml, .json].filterMap fun f =>
      (fs.get? (name ++ "." ++ f.suffix)).map fun text => (name ++ "." ++ f.suffix, f, text)
    match candidates with
    | found :: _ => if name.isEmpty then .error (.noSuchFile name) else .ok found
    | [] => .error (.noSuchFile name)

end Files

namespace Settings

/-- The entries of the table that a text of a format holds; none if it holds something else. -/
def entriesOf (name : String) (f : FileFormat) (text : String) : Except SettingsError (List (String × Tree)) :=
  match f with
  | .toml =>
    match Toml.read text.toList with
    | some es => .ok (Tree.ofTomlEntries (.file name) es)
    | none => .error (.malformed name)
  | .json =>
    match Json.parse text.toList with
    | .ok (.object ms) => .ok (Tree.ofJsonMembers (.file name) ms [])
    | .ok _ => .ok []
    | .error _ => .error (.malformed name)

/-- The entries of a file; a file that is not `required` may be missing. -/
def fileEntries (fs : Files) (path : String) (required : Bool) : Except SettingsError (List (String × Tree)) :=
  match fs.find path with
  | .ok (name, f, text) => entriesOf name f text
  | .error e => if required then .error e else .ok []

/-- The configuration of a file with the environment laid over it. -/
def tree (fs : Files) (e : Environment) (path : String) (required : Bool) : Except SettingsError Tree := do
  return (Tree.empty.assignAll (← fileEntries fs path required)).assignAll e.entries

/-- Valid settings from a file and the environment. -/
def loadFrom (fs : Files) (e : Environment) (path : String) (required : Bool) : Except SettingsError Settings := do
  let s ← ofTree (← tree fs e path required)
  match s.violation? with
  | some v => .error (.invalid v)
  | none => return s

abbrev fileVariable : String := "FX_COLLECTOR_CONFIG"

/-- The configuration file that is used, if it is there, when none is named. -/
abbrev defaultFile : String := "config/collector"

/-- Valid settings from the usual places: `.env` adds to the environment, which may name the
file. -/
def load (fs : Files) (e : Environment) : Except SettingsError Settings :=
  let e := match fs.get? ".env" with
    | some text => e.loadEnvFile text.toList
    | none => e
  match e.get? fileVariable with
  | some path => loadFrom fs e path true
  | none => loadFrom fs e defaultFile false

end Settings

end RateDesk
