import Conditions.Files.Disk
import Conditions.Settings.Config
import Conditions.Settings.Environment
import Conditions.Toml.Document

/-!
# Loading a configuration

The configuration file is layered over the defaults and the environment over the file. A missing
file counts as an empty one. Unknown keys of a section are left out, with one warning.
-/

set_option autoImplicit false

namespace Conditions.Settings
open Files (Path Disk Homes HomeFault)
open Journal (Entry)

inductive LoadFault where
  | invalidToml (path : Path)
  | unreadable (path : Path) (reason : Files.Reason)
  | unknown (fault : Files.Fault)
  | notTable (section_ : String)
  | invalid (fault : SettingFault)
  | notText (kind : String)
  | notPath (kind : String)
  | home (fault : HomeFault)
  | undecodable (fault : Text.Utf8Fault)
  | tooManyDigits (count : Nat)
  deriving Repr

def notToml : String := "the text is not a TOML document"

def LoadFault.message : LoadFault → String
  | .invalidToml path => s!"Invalid TOML in {path.text}: {notToml}"
  | .unreadable path reason =>
    s!"Cannot read config file {path.text}: {(Files.Fault.mk reason path).message}"
  | .unknown fault => fault.message
  | .notTable name => s!"[{name}] must be a table"
  | .invalid fault => s!"Invalid configuration: {fault.message}"
  | .notText kind => (SettingFault.notText kind).message
  | .notPath kind => s!"expected str, bytes or os.PathLike object, not {kind}"
  | .home fault => fault.message
  | .undecodable fault => fault.message
  | .tooManyDigits count => Number.digitLimit count

def LoadFault.isReported : LoadFault → Bool
  | .invalidToml _ | .unreadable _ _ | .notTable _ | .invalid _ => true
  | .unknown _ | .notText _ | .notPath _ | .home _ | .undecodable _ | .tooManyDigits _ => false

abbrev Loading := ExceptT LoadFault (StateM (List Entry))

namespace Loading

def say (e : Entry) : Loading Unit := modify (· ++ [e])

def ofExcept {ε α : Type} (f : ε → LoadFault) (a : Except ε α) : Loading α :=
  match a with
  | .ok a => pure a
  | .error e => throw (f e)

end Loading

def logger : String := "condexpr.config.loader"

def defaultPath (homes : Homes) : Path :=
  { homes.own with parts := homes.own.parts ++ [".condexpr", "config.toml"] }

def configPath (e : Environment) : Except HomeFault Path :=
  (e.path? "CONDEXPR_CONFIG_PATH").map fun p => p.getD (defaultPath e.homes)

def fileMissing (p : Path) : Entry :=
  ⟨.debug, logger, s!"Config file not found, using defaults: {p.text}"⟩

def unknownKeys (name : String) (keys : List String) : Entry :=
  let list := ", ".intercalate keys
  ⟨.warning, logger, s!"Ignoring unknown keys in [{name}]: {list}"⟩

def loadFile (d : Disk) (p : Path) : Loading Toml.Table := do
  if (← Loading.ofExcept .unknown (d.lookUp p)).isNone then
    Loading.say (fileMissing p)
    pure []
  else
    let bytes ← Loading.ofExcept (.unreadable p) (d.read p)
    let text ← Loading.ofExcept .undecodable (Text.decodeUtf8 bytes)
    match Toml.read text with
    | .ok table => pure table
    | .error .invalid => throw (.invalidToml p)
    | .error (.tooManyDigits count) => throw (.tooManyDigits count)

def insertSorted (key : String) : List String → List String
  | [] => [key]
  | k :: rest => if key < k then key :: k :: rest else k :: insertSorted key rest

def loadSection (table : Toml.Table) (name : String) (known : List String) : Loading Fields := do
  match (table.find? name).getD (.table []) with
  | .table members =>
    let unknown := (Dictionary.keys members).filter fun k => !known.contains k
    if !unknown.isEmpty then
      Loading.say (unknownKeys name (unknown.foldr insertSorted []))
    pure ((members.filter fun m => known.contains m.1).map fun (k, v) => (k, .value v))
  | _ => throw (.notTable name)

def resolveFile (homes : Homes) (f : Fields) : Loading Fields :=
  match f.find? "file" with
  | some (.value (.string s)) => do
    let p ← Loading.ofExcept .home ((Path.read s).expandHome homes)
    pure (f.insert "file" (.path p))
  | some s => throw (.notPath s.kind)
  | none => pure f

def fieldOf (key : String) (s : Option Setting) : Fields := (s.map fun s => [(key, s)]).getD []

def engineVariables (e : Environment) : Loading Fields := do
  let read := fun (key name : String) => do
    let (n, said) := e.int? name
    said.forM Loading.say
    pure (fieldOf key (n.map .int))
  pure ((← read "max_workers" "CONDEXPR_MAX_WORKERS") ++
    (← read "cache_size" "CONDEXPR_CACHE_SIZE"))

def journalVariables (e : Environment) : Loading Fields := do
  let file ← Loading.ofExcept .home (e.path? "CONDEXPR_LOG_FILE")
  pure (fieldOf "level" ((e.text? "CONDEXPR_LOG_LEVEL").map .string) ++
    fieldOf "file" (file.map .path) ++
    fieldOf "format" ((e.text? "CONDEXPR_LOG_FORMAT").map .string))

def reportFault : SettingFault → LoadFault
  | .notText kind => .notText kind
  | fault => .invalid fault

def loadConfig (d : Disk) (e : Environment) (path : Option Path) : Loading Config := do
  let p ← match path with
    | some p => pure p
    | none => Loading.ofExcept .home (configPath e)
  let table ← loadFile d p
  let engine ← loadSection table "engine" engineKeys
  let journal ← resolveFile e.homes (← loadSection table "logging" journalKeys)
  let engine := Dictionary.insertAll engine (← engineVariables e)
  let journal := Dictionary.insertAll journal (← journalVariables e)
  pure
    { engine := ← Loading.ofExcept reportFault (EngineConfig.ofFields engine)
      journal := ← Loading.ofExcept reportFault (JournalConfig.ofFields journal) }

def load (d : Disk) (e : Environment) (path : Option Path) : Except LoadFault Config × List Entry :=
  (loadConfig d e path).run.run []

end Conditions.Settings
