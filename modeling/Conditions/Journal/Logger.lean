import Conditions.Files.Disk
import Conditions.Journal.Report
import Conditions.Settings.Config
import Conditions.Settings.Environment

/-!
# The logger

Handlers write records to the standard error stream or to a file that is rotated. Configuring the
logger replaces the handlers of an earlier configuration, which are known by their filter for the
evaluation context, and leaves those that an application has attached. Before it is configured, the
logger passes on warnings and worse as bare messages.
-/

set_option autoImplicit false

namespace Conditions.Journal
open Files (Homes Path Disk)
open Settings (JournalConfig Setting)

inductive Layout where
  | text
  | json
  deriving DecidableEq, Repr, Inhabited

def Layout.line (l : Layout) (time : Instant) (r : Record) : Except Json.WriteFault String :=
  match l with
  | .text => .ok (textLine time r)
  | .json => (Report.ofRecord time r).line

inductive Filter where
  | context
  | other (name : String)
  deriving DecidableEq, Repr

/-- A file that is set aside when a line would bring it to `maxBytes`; so many older files are kept
as `backups` says. -/
structure RotatingFile where
  path : Path
  maxBytes : Setting
  backups : Setting
  deriving Repr

inductive Sink where
  | stderr
  | file (f : RotatingFile)
  | null
  deriving Repr

structure Handler where
  sink : Sink
  layout : Option Layout
  filters : List Filter
  deriving Repr

def Handler.isOwn (h : Handler) : Bool := h.filters.contains .context

structure Logger where
  level : Option Level
  propagate : Bool
  handlers : List Handler
  disk : Disk
  stderr : String

namespace Logger

def name : String := "condexpr"

def start (disk : Disk) : Logger := ⟨none, true, [], disk, ""⟩

def print (l : Logger) (text : String) : Logger := { l with stderr := l.stderr ++ text }

end Logger

namespace RotatingFile

def place (f : RotatingFile) (number : Nat) : List String :=
  let name := f.path.parts.getLastD ""
  if number = 0 then f.path.parts else f.path.parts.dropLast ++ [s!"{name}.{number}"]

def bytesAt (d : Disk) (place : List String) : List Nat :=
  match d.node? place with
  | some (.file bytes) => bytes
  | _ => []

def shift (f : RotatingFile) (d : Disk) (number : Nat) : Disk :=
  match d.node? (f.place number) with
  | some node => (d.remove (f.place number)).put (f.place (number + 1)) node
  | none => d

def backupCount (f : RotatingFile) : Nat :=
  match f.backups.rank? with
  | some (.inl n) => n.toNat
  | _ => 0

def rotate (f : RotatingFile) (d : Disk) : Disk :=
  ((List.range f.backupCount).reverse.foldl f.shift d).put (f.place 0) (.file [])

def isFull (f : RotatingFile) (d : Disk) (characters : Nat) : Bool :=
  match f.maxBytes.rank? with
  | some limit =>
    Setting.above limit 0 &&
      !Setting.above limit ((bytesAt d (f.place 0)).length + characters : Nat)
  | none => false

def append (f : RotatingFile) (d : Disk) (line : String) : Disk :=
  let text := line ++ "\n"
  let write (d : Disk) :=
    d.put (f.place 0) (.file (bytesAt d (f.place 0) ++ Text.encodeUtf8 text.toList))
  if !f.isFull d text.length || f.backupCount = 0 then write d
  else if d.isFixed (f.place 0) then d
  else write (f.rotate d)

def create (f : RotatingFile) (d : Disk) : Except Files.Fault Disk := do
  let place ← (d.locate f.path).mapError (⟨·, f.path⟩)
  match d.node? place with
  | some .directory => throw ⟨.isDirectory, f.path⟩
  | some (.file _) => if d.forbids place .write then throw ⟨.denied, f.path⟩ else pure d
  | none =>
    if d.isFixed place then throw ⟨.denied, f.path⟩ else pure (d.put place (.file []))

end RotatingFile

namespace Logger

def handle (l : Logger) (h : Handler) (time : Instant) (r : Record) : Logger :=
  match h.sink, (h.layout.getD .text).line time r with
  | .stderr, .ok line => l.print (line ++ "\n")
  | .file f, .ok line => { l with disk := f.append l.disk line }
  | _, _ => l

def covers (logger : String) : Bool := logger == name || logger.startsWith (name ++ ".")

def logBare (l : Logger) (r : Record) : Logger :=
  if Level.warning.rank ≤ r.entry.level.rank then l.print (r.entry.message ++ "\n") else l

def log (l : Logger) (time : Instant) (r : Record) : Logger :=
  if !covers r.entry.logger then l.logBare r
  else if r.entry.level.rank < (l.level.getD .warning).rank then l
  else if l.handlers.isEmpty then if l.propagate then l.logBare r else l
  else l.handlers.foldl (fun l h => l.handle h time r) l

def logAll (l : Logger) (time : Instant) (rs : List Record) : Logger :=
  rs.foldl (fun l r => l.log time r) l

def attach (l : Logger) (h : Handler) : Logger := { l with handlers := l.handlers ++ [h] }

inductive ConfigureFault where
  | home (fault : Files.HomeFault)
  | unordered (kind : String)
  | nullInPath
  deriving DecidableEq, Repr

def ConfigureFault.message : ConfigureFault → String
  | .home fault => fault.message
  | .unordered kind => s!"'>' not supported between instances of '{kind}' and 'int'"
  | .nullInPath => Files.nullInPath

structure OpenFault where
  path : Path
  fault : Files.Fault

def OpenFault.entry (f : OpenFault) : Entry :=
  ⟨.warning, name,
    s!"Could not open log file {f.path.text}, logging to stderr: {f.fault.message}"⟩

/-- Opens a log file, with the directories above it. The outer failure leaves the configuration
unfinished; the inner one is only told. -/
def openFile (d : Disk) (homes : Homes) (p : Path) (c : JournalConfig) :
    Except ConfigureFault (Except Files.Fault RotatingFile × Disk) := do
  match p.expandHome homes with
  | .error fault => throw (.home fault)
  | .ok p =>
    if p.parent.hasNull then throw .nullInPath
    match d.ensureDirectories p.parent with
    | .error fault => pure (.error fault, d)
    | .ok d =>
      if c.maxBytes.rank?.isNone then throw (.unordered c.maxBytes.kind)
      if p.hasNull then throw .nullInPath
      let f : RotatingFile := ⟨p.absolute d.here, c.maxBytes, c.backupCount⟩
      match f.create d with
      | .error fault => pure (.error fault, d)
      | .ok d => pure (.ok f, d)

def layoutOf (c : JournalConfig) : Layout :=
  if Settings.lower c.format == "json" then .json else .text

def levelOf (c : JournalConfig) : Level :=
  (Level.all.find? fun l => Settings.lower l.name == Settings.lower c.level).getD .info

def clear (l : Logger) (c : JournalConfig) : Logger :=
  { l with
    level := some (levelOf c)
    propagate := false
    handlers := l.handlers.filter fun h => !h.isOwn }

def own (c : JournalConfig) (sink : Sink) : Handler := ⟨sink, some (layoutOf c), [.context]⟩

def sinksOf (c : JournalConfig) (file : Option RotatingFile) : List Sink :=
  match file with
  | some f => .file f :: (if c.includeStderr.isTruthy then [.stderr] else [])
  | none => [.stderr]

def attachOwn (l : Logger) (c : JournalConfig) (file : Option RotatingFile) : Logger :=
  { l with handlers := l.handlers ++ (sinksOf c file).map (own c) }

def configure (l : Logger) (homes : Homes) (c : JournalConfig) (time : Instant) (context : Context) :
    Option ConfigureFault × Logger :=
  let l := l.clear c
  match c.file with
  | none => (none, l.attachOwn c none)
  | some p =>
    match openFile l.disk homes p c with
    | .error fault => (some fault, l)
    | .ok (.ok f, disk) => (none, { l with disk }.attachOwn c (some f))
    | .ok (.error fault, disk) =>
      (none, ({ l with disk }.attachOwn c none).log time ⟨(OpenFault.mk p fault).entry, context⟩)

end Logger

end Conditions.Journal
