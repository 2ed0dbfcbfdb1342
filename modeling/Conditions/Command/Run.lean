import Conditions.Command.ConditionsFile
import Conditions.Command.Request
import Conditions.Evaluator.Future
import Conditions.Journal.Logger
import Conditions.Settings.Load

/-!
# Running a command

A command loads the configuration, configures the journal, and does what is asked for. What it
writes goes to the console; the journal goes where it is configured to go. A command ends with an
exit code, or with a usage fault, or is cut short by a fault that is not reported; or it waits for
ever, if no worker is there to run what it has submitted. Words and documents are read by readers
that are given from outside.
-/

set_option autoImplicit false

namespace Conditions.Command
open Files (Path Disk)
open Journal (Entry Record Logger Instant)
open Settings (Environment Config EngineConfig Setting)

inductive Crash where
  | load (fault : Settings.LoadFault)
  | settings (fault : Settings.SettingFault)
  | configure (fault : Logger.ConfigureFault)
  | undecodable (fault : Text.Utf8Fault)
  | raised (r : Raised)
  | cache (fault : Settings.CacheFault)
  | unknown (fault : Files.Fault)
  | unwritten (fault : Json.WriteFault)

def Crash.message : Crash → String
  | .load fault => fault.message
  | .settings fault => fault.message
  | .configure fault => fault.message
  | .undecodable fault => fault.message
  | .raised r => r.message
  | .cache fault => fault.message
  | .unknown fault => fault.message
  | .unwritten fault => fault.message

inductive Ending where
  | exit (code : ExitCode)
  | usage
  | crash (c : Crash)
  /-- It never ends. -/
  | waits

def Ending.status : Ending → Option Int
  | .exit code => some code.number
  | .usage => some 2
  | .crash _ => some 1
  | .waits => none

structure Surroundings where
  environment : Environment
  time : Instant
  commandLine : CommandLine
  reader : Reader

structure Console where
  stdout : String
  logger : Logger
  said : List Record

def Console.start (disk : Disk) : Console := ⟨"", Logger.start disk, []⟩

abbrev Action := ReaderT Surroundings (ExceptT Ending (StateM Console))

def say (records : List Record) : Action Unit := do
  let time := (← read).time
  modify fun c => { c with logger := c.logger.logAll time records, said := c.said ++ records }

def sayPlainly (entries : List Entry) : Action Unit := say (entries.map fun e => ⟨e, .none⟩)

def print (text : String) : Action Unit := modify fun c => { c with stdout := c.stdout ++ text }

def printError (text : String) : Action Unit :=
  modify fun c => { c with logger := c.logger.print text }

def crash {α : Type} (c : Crash) : Action α := throw (.crash c)

def fail {α : Type} (f : Format) (code : ExitCode) (message : String) : Action α := do
  printError ((Failed.mk code message).text f)
  throw (.exit code)

def conclude (f : Format) (v : Verdict) : Action Unit := do
  match v.text f with
  | .ok text =>
    print text
    throw (.exit v.code)
  | .error fault => crash (.unwritten fault)

def disk : Action Disk := do return (← get).logger.disk

def logger : String := "condexpr.cli.check"

inductive Waited where
  | result (passed : Bool)
  | interrupted
  | forever
  deriving DecidableEq, Repr

def Waited.cancels : Waited → Bool
  | .result _ | .forever => false
  | .interrupted => true

def interrupted : Entry := ⟨.info, logger, "Interrupted while waiting for condition result"⟩

def await (f : Format) : Waited → Action Bool
  | .result passed => pure passed
  | .interrupted => do
    sayPlainly [interrupted]
    fail f .interrupted "Interrupted"
  | .forever => throw .waits

open Evaluator (Setup State Failure)

abbrev Who := Option Text

def resolverOf (values : Dictionary Text Text) : Placeholder.Resolver Who Unit :=
  (Placeholder.Registry.ofList (values.map fun e => (e.1, .fixed e.2))).resolver

/-- Whether a pool of so many workers ever starts one: nothing is less than what is no number. -/
def startsWorkers (c : EngineConfig) : Bool :=
  match c.maxWorkers.rank? with
  | some x => Setting.above x 0
  | none => false

def settled (u : Setup Who Unit) (runs : Bool) (lines : Nat) (future : Nat) (s : State Who Unit) :
    Waited × State Who Unit :=
  let s := if runs then s.runTasks u (lines + 1) else s
  match s.status future with
  | .finished passed => (.result passed, s)
  | .pending | .cancelled => (.forever, s)

abbrev Work := Setup Who Unit → State Who Unit → Except Failure Waited × State Who Unit

def evaluateLine (c : EngineConfig) (onWorker : Bool) (who : Who) (line : Text) : Work := fun u s =>
  if onWorker then
    let (future, s) := s.evaluateAsync u ⟨who, who⟩ (some line)
    let (waited, s) := settled u (startsWorkers c) 1 future s
    (.ok waited, s)
  else
    let (answer, s) := s.evaluate u ⟨who, who⟩ (some line)
    (answer.map .result, s)

def evaluateLines (c : EngineConfig) (onWorker : Bool) (who : Who) (lines : List Text) : Work :=
  fun u s =>
    if onWorker then
      let (future, s) := s.evaluateAllAsync u ⟨who, who⟩ (lines.map some)
      let (waited, s) := settled u (startsWorkers c) lines.length future s
      (.ok waited, s)
    else
      let (answer, s) := s.evaluateAll u ⟨who, who⟩ (lines.map some)
      (answer.map .result, s)

def withEvaluator (c : EngineConfig) (values : Dictionary Text Text) (work : Work) :
    Action (Except Failure Waited) := do
  match c.cacheEntries with
  | .error fault => crash (.cache fault)
  | .ok cacheSize =>
    let u : Setup Who Unit := ⟨resolverOf values, .owned, .immediate, cacheSize⟩
    let (answer, s) := work u (State.start u ())
    -- who waits for ever does not come to close it
    let s := if answer.toOption = some .forever then s else s.close u
    say (s.session.journal.map Evaluator.Noted.record)
    pure answer

def failureOf (f : Format) : Failure → Action Bool
  | .malformed fault => fail f .parseError (Expression.pointAt fault.message fault.source
      fault.position)
  | failure => fail f .parseError failure.message

def assignments (f : Format) (items : List Text) : Action (Dictionary Text Text) := do
  let pairs ← items.mapM fun item =>
    match Text.splitAt? '=' item with
    | some (key, value) =>
      if (Text.strip key).isEmpty then invalid item else pure (Text.strip key, value)
    | none => invalid item
  pure (Dictionary.ofList pairs)
where
  invalid (item : Text) : Action (Text × Text) :=
    let shown := String.ofList item
    fail f .invalidInput s!"Invalid --set value '{shown}', expected KEY=VALUE"

def lineVerdict (expression : Text) (passed : Bool) : Verdict :=
  .ofResult passed [("expression", .string (String.ofList expression))]

def fileVerdict (p : Path) (count : Nat) (passed : Bool) : Verdict :=
  .ofResult passed [("file", .string p.text), ("count", .int count)]

def evaluate (c : EngineConfig) (expression : Text) (m : Manner) : Action Unit := do
  let values ← assignments m.format m.assignments
  let passed ← match ← withEvaluator c values (evaluateLine c m.onWorker m.caller expression) with
    | .ok waited => await m.format waited
    | .error failure => failureOf m.format failure
  conclude m.format (lineVerdict expression passed)

def loadFile (f : Format) (p : Path) : Action ConditionsFile := do
  match ConditionsFile.load (← read).reader (← disk) p with
  | .ok file => pure file
  | .error (.missing p) => fail f .targetNotFound s!"Conditions file not found: {p.text}"
  | .error (.unreadable p why) =>
    fail f .invalidInput s!"Cannot read conditions file {p.text}: {why}"
  | .error .placeholders => fail f .invalidInput "'placeholders' must be a mapping"
  | .error .conditions => fail f .invalidInput "Conditions must be a list of strings"
  | .error (.undecodable fault) => crash (.undecodable fault)
  | .error (.raised r) => crash (.raised r)
  | .error (.unknown fault) => crash (.unknown fault)

def checked (count : Nat) (p : Path) (passed : Bool) : Entry :=
  ⟨.info, logger, s!"Checked {count} condition(s) from {p.text}: {Evaluator.truth passed}"⟩

def check (c : EngineConfig) (p : Path) (m : Manner) : Action Unit := do
  let file ← loadFile m.format p
  let values := Dictionary.insertAll file.placeholders (← assignments m.format m.assignments)
  let passed ← match ← withEvaluator c values (evaluateLines c m.onWorker m.caller file.lines) with
    | .ok waited => await m.format waited
    | .error failure => failureOf m.format failure
  sayPlainly [checked file.lines.length p passed]
  conclude m.format (fileVerdict p file.lines.length passed)

def tokenLine (t : Expression.Token) : String :=
  let position := String.ofList (Number.padLeft 4 ' ' (Number.natText t.position))
  let fill := String.ofList (List.replicate (8 - t.kind.label.length) ' ')
  s!"{position}  {t.kind.label}{fill}  {String.ofList t.text}\n"

def tokens (expression : Text) : Action Unit := do
  match Expression.tokens expression with
  | .ok ts => do
    print (String.join (ts.map tokenLine))
    throw (.exit .success)
  | .error fault =>
    fail .text .parseError (Expression.pointAt fault.message fault.source fault.position)

def perform (c : EngineConfig) : Request → Action Unit
  | .evaluate expression m => evaluate c expression m
  | .check p m => check c p m
  | .tokens expression => tokens expression

def loadConfig (path : Option Path) : Action Config := do
  let (config, said) := Settings.load (← disk) (← read).environment path
  sayPlainly said
  match config with
  | .ok config => pure config
  | .error fault =>
    if fault.isReported then fail .text .configError fault.message else crash (.load fault)

def configureJournal (c : Config) (g : General) : Action Unit := do
  let overrides : Settings.JournalConfig.Overrides :=
    ⟨g.logLevel, g.logFile, if g.logJson then some "json" else none, none⟩
  match c.journal.override overrides with
  | .error fault => crash (.settings fault)
  | .ok config =>
    let around ← read
    let console ← get
    let (fault, logger) :=
      console.logger.configure around.environment.homes config around.time .none
    set { console with logger }
    match fault with
    | some fault => crash (.configure fault)
    | none => pure ()

def usage {α : Type} (a : Except UsageFault α) : Action α :=
  match a with
  | .ok a => pure a
  | .error .misused => throw .usage
  | .error (.helped text) => do
    print text
    throw (.exit .success)
  | .error (.raised r) => crash (.raised r)

/-- Does what a command line asks for. The words behind the name of the command are looked at when
the configuration has been loaded. -/
def runWords (words : List String) : Action Unit := do
  let line := (← read).commandLine
  let (general, task, rest) ← usage (line.general (← disk) words)
  let config ← loadConfig general.config
  configureJournal config general
  let request ← usage (line.request (← disk) task rest)
  perform config.engine request

def run (around : Surroundings) (words : List String) (c : Console) : Ending × Console :=
  match ((runWords words).run around).run.run c with
  | (.ok (), c) => (.exit .success, c)
  | (.error ending, c) => (ending, c)

end Conditions.Command
