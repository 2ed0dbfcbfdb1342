import Conditions.Command.Run
import Conditions.Command.StandardLine
import Conditions.Command.YamlReader
import Std.Time.DateTime.Timestamp

/-!
# The program

A command works on a disk of its own. What it may touch is copied there from the file system first,
and what has changed on it is written back in the end. What cannot be read there is forbidden on the
copy too.
-/

set_option autoImplicit false

namespace Conditions.Program
open Command (CommandLine Surroundings)
open Files (Homes Path Disk Node)
open Settings (Environment)

def variableNames : List String :=
  ["CONDEXPR_CONFIG_PATH", "CONDEXPR_MAX_WORKERS", "CONDEXPR_CACHE_SIZE", "CONDEXPR_LOG_LEVEL",
   "CONDEXPR_LOG_FILE", "CONDEXPR_LOG_FORMAT"]

def users : IO (Dictionary String Path) := do
  let list ← try IO.FS.readFile "/etc/passwd" catch _ => pure ""
  return (list.splitOn "\n").filterMap fun line =>
    match line.splitOn ":" with
    | [name, _, _, _, _, home, _] => some (name, .ofHome home)
    | _ => none

def environment : IO Environment := do
  let given ← variableNames.filterMapM fun name => do return (← IO.getEnv name).map (name, ·)
  let known ← users
  return ⟨given, .ofHome ((← IO.getEnv "HOME").getD "/"), known.find?⟩

def now : IO Journal.Instant := do
  let nanos := (← Std.Time.Timestamp.now).toNanosecondsSinceUnixEpoch.val
  return ⟨nanos / 1000⟩

def nameOf (place : List String) : String := "/" ++ "/".intercalate place

def look (place : List String) : IO (Option (Node × Bool)) := do
  try
    let bytes ← IO.FS.readBinFile (nameOf place)
    return some (.file (bytes.toList.map UInt8.toNat), true)
  catch
    | .noFileOrDirectory .. => return none
    | .permissionDenied .. => return some (.file [], false)
    | _ => return some (.directory, true)

def forbidReading (d : Disk) (place : List String) : Disk :=
  { d with forbids := fun p access => (p == place && access == .read) || d.forbids p access }

def fetchPlace (d : Disk) (place : List String) : IO Disk :=
  (Disk.beginnings place).foldlM (fun d place => do
    match d.node? place.dropLast, d.node? place with
    | some .directory, none =>
      match ← look place with
      | some (node, true) => return d.put place node
      | some (node, false) => return forbidReading (d.put place node) place
      | none => return d
    | _, _ => return d) d

def placeOf (e : Environment) (d : Disk) (p : Path) : Path :=
  ((p.expandHome e.homes).toOption.getD p).absolute d.here

def fetchJournal (e : Environment) (d : Disk) (c : Settings.JournalConfig) (p : Path) : IO Disk := do
  let f : Journal.RotatingFile := ⟨placeOf e d p, c.maxBytes, c.backupCount⟩
  ((List.range (f.backupCount + 1)).map f.place).foldlM fetchPlace d

def paths (words : List String) : Option Path × List Path :=
  match CommandLine.standard.general (.empty []) words with
  | .error _ => (none, [])
  | .ok (general, task, rest) =>
    let file := match CommandLine.standard.request (.empty []) task rest with
      | .ok (.check p _) => [p]
      | _ => []
    (general.logFile, general.config.toList ++ file)

def gather (e : Environment) (words : List String) : IO Disk := do
  let here := (Path.read (toString (← IO.currentDir))).parts
  let (logFile, others) := paths words
  let standard := match Settings.configPath e with
    | .ok p => [p]
    | .error _ => []
  let d ← (others ++ standard).foldlM (fun d p => fetchPlace d (placeOf e d p).parts)
    (← fetchPlace (.empty here) here)
  match (Settings.load d e others.head?).1, (Settings.load d e none).1 with
  | .ok c, _ | _, .ok c =>
    (logFile.toList ++ c.journal.file.toList).foldlM (fun d p => fetchJournal e d c.journal p) d
  | _, _ => return d

def store (before after : Disk) : IO Unit := do
  for (place, node) in after.nodes do
    if before.node? place != some node then
      match node with
      | .directory => IO.FS.createDirAll (nameOf place)
      | .file bytes => IO.FS.writeBinFile (nameOf place) ⟨(bytes.map Nat.toUInt8).toArray⟩
  for (place, _) in before.nodes do
    if (after.node? place).isNone then IO.FS.removeFile (nameOf place)

end Conditions.Program

open Conditions Conditions.Program Conditions.Command in
def main (args : List String) : IO UInt32 := do
  let around : Surroundings := ⟨← environment, ← now, .standard, Yaml.reader⟩
  let before ← gather around.environment args
  let (ending, c) := Command.run around args (.start before)
  store before c.logger.disk
  IO.print c.stdout
  IO.eprint c.logger.stderr
  match ending with
  | .crash fault => IO.eprintln fault.message
  | .usage => IO.eprint Command.usageText
  | .waits => repeat IO.sleep 1000
  | .exit _ => pure ()
  return (ending.status.getD 0).toNat.toUInt32
