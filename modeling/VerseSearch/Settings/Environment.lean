import VerseSearch.Emphasis
import VerseSearch.Layer
import VerseSearch.Letters.Source
import VerseSearch.Numeral
import VerseSearch.Text.Blank
import VerseSearch.Text.Path

/-!
# Settings, and settings from the environment

Environment variables override the defaults one by one; a number that cannot be read is passed
over. Without a variable for it, the data directory is the first of the development directories
that holds a corpus file, else the application's directory on the platform
(`Surroundings.dataDirectory`).
-/

set_option autoImplicit false

namespace VerseSearch

/-- What an installation may choose. -/
structure Settings where
  /-- Where the corpus files are. -/
  dataDirectory : String
  /-- How many results a page shows. 0 counts as 1. -/
  perPage : Nat := 10
  /-- For how many queries the results are kept. 0 counts as 256. -/
  cacheCapacity : Nat := 256
  bindAddress : String := "127.0.0.1:3000"
  markers : Markers := {}
  /-- What may stand between the letters of a letter query, as a regular expression. -/
  wildcard : String := Letters.nonConsonant
deriving DecidableEq, Repr

/-- The usual settings over a data directory. -/
def Settings.usual (dataDirectory : String) : Settings := { dataDirectory }

/-! ## The environment -/

/-- What a process finds around it. -/
structure Surroundings where
  /-- The value of an environment variable. -/
  environment : String → Option String
  /-- Whether a path leads to a file or directory. -/
  pathExists : String → Bool
  workingDirectory : String
  parentDirectory : String

namespace Surroundings

/-- Whether a directory holds the corpus file of some layer. -/
def holdsCorpus (s : Surroundings) (directory : String) : Bool :=
  Layer.all.any fun layer => s.pathExists (Path.join directory layer.fileName)

/-- The home directory of the user. -/
def home? (s : Surroundings) : Option String := (s.environment "HOME").filter fun h => !h.isEmpty

/-- Where the platform keeps the data of the user's applications. -/
def userData? (s : Surroundings) : Option String :=
  ((s.environment "XDG_DATA_HOME").filter Path.isAbsolute).orElse fun _ =>
    s.home?.map fun h => Path.join h ".local/share"

/-- Where the corpus files are when no setting says so. -/
def dataDirectory (s : Surroundings) : String :=
  if s.holdsCorpus "data" then Path.join s.workingDirectory "data"
  else if s.holdsCorpus "../data" then Path.join s.parentDirectory "data"
  else match s.userData? with
    | some directory => Path.join directory "ayat"
    | none => "data"

/-- A number in an environment variable, with any blanks around it. -/
def count? (s : Surroundings) (name : String) : Option Nat :=
  (s.environment name).bind fun value => Text.count? (Text.trim value.toList)

end Surroundings

namespace Settings

/-- The settings that the environment asks for. -/
def ofEnvironment (s : Surroundings) : Settings :=
  let usual := Settings.usual s.dataDirectory
  { dataDirectory := (s.environment "AYAT_DATA_DIR").getD usual.dataDirectory
    perPage := ((s.count? "AYAT_PER_PAGE").map (max 1)).getD usual.perPage
    cacheCapacity := (s.count? "AYAT_CACHE_CAPACITY").getD usual.cacheCapacity
    bindAddress := (s.environment "AYAT_BIND").getD usual.bindAddress
    markers :=
      ⟨(s.environment "AYAT_MARK_OPEN").getD usual.markers.opening,
        (s.environment "AYAT_MARK_CLOSE").getD usual.markers.closing⟩
    wildcard := (s.environment "AYAT_NONCONSONANT").getD usual.wildcard }

end Settings

end VerseSearch
