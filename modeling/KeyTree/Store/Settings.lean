import KeyTree.Store.Location
import KeyTree.Text.Blank

/-!
# Settings

Where a tree is kept, where it is exported to and how, and how many programs an evaluator holds.
Settings are checked when they are made.
-/

namespace KeyTree

/-- Settings that have not been checked. -/
structure Settings where
  storagePath : String
  exportFilename : String
  cacheSize : Int
  exportIndent : Int
  deriving DecidableEq

inductive SettingsFault where
  | blankFilename
  | cacheSize (value : Int)
  | exportIndent (value : Int)
  | home (fault : Location.HomeFault)
  deriving DecidableEq

def SettingsFault.message : SettingsFault → String
  | blankFilename => "export_filename must not be blank"
  | cacheSize value => s!"evaluation_cache_size must be >= 1, got {value}"
  | exportIndent value => s!"export_indent must be >= 0, got {value}"
  | home fault => fault.message

namespace Settings

/-- The settings of a user with this home directory who sets nothing. -/
def standard (home : String) : Settings where
  storagePath := home ++ "/.data-jar/data-jar-storage.json"
  exportFilename := "data_jar_backup.json"
  cacheSize := 256
  exportIndent := 2

/-- Settings that hold, with the storage path in its shortest spelling. -/
def check (s : Settings) : Except SettingsFault Settings :=
  if Text.isBlankText s.exportFilename then .error .blankFilename
  else if s.cacheSize < 1 then .error (.cacheSize s.cacheSize)
  else if s.exportIndent < 0 then .error (.exportIndent s.exportIndent)
  else .ok { s with storagePath := Location.normal s.storagePath }

/-- The variable that holds the storage path. -/
def pathVariable : String := "DATA_JAR_PATH"

/-- The settings of an environment, in which the storage path may be set. -/
def ofEnvironment (standard : Settings) (homes : Location.Homes) (storagePath : Option String) :
    Except SettingsFault Settings :=
  match storagePath.filter (!·.isEmpty) with
  | some path => do
    let location ← (Location.expandHome homes path).mapError .home
    check { standard with storagePath := location }
  | none => check standard

end Settings

end KeyTree
