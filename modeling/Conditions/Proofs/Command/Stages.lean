import Conditions.Proofs.Command.Running
import Conditions.Proofs.Settings.Escapes

/-!
# The stages of a command

A command line that evaluates conditions is followed stage by stage: configuration, journal, words,
file, assignments, evaluator. At the end there is a verdict, or a stage has failed, with an exit code
for it or without one, or the command waits for ever.
-/

set_option autoImplicit false

namespace Conditions.Command
open Files (Path Disk)
open Journal (Logger)
open Settings (Config JournalConfig)
open Conditions.Command.Action (Gives Ends)

def Request.assignments : Request → List Text
  | .evaluate _ m | .check _ m => m.assignments
  | .tokens _ => []

def Request.onWorker : Request → Bool
  | .evaluate _ m | .check _ m => m.onWorker
  | .tokens _ => false

def Request.format : Request → Format
  | .evaluate _ m | .check _ m => m.format
  | .tokens _ => .text

def Request.isLenient : Request → Bool
  | .evaluate _ m => m.onWorker
  | .check _ _ | .tokens _ => true

def Request.verdict (lines : List Text) (passed : Bool) : Request → Verdict
  | .evaluate expression _ => lineVerdict expression passed
  | .check p _ => fileVerdict p lines.length passed
  | .tokens _ => .ofResult passed []

def Request.Stalls (r : Request) (c : Settings.EngineConfig) (lines : List Text) : Prop :=
  r.onWorker = true ∧ startsWorkers c = false ∧ lines ≠ []

instance (r : Request) (c : Settings.EngineConfig) (lines : List Text) :
    Decidable (r.Stalls c lines) := inferInstanceAs (Decidable (_ ∧ _ ∧ _))

theorem Request.Stalls.isLenient {r : Request} {c : Settings.EngineConfig} {lines : List Text}
    (h : r.Stalls c lines) : r.isLenient = true := by
  cases r with
  | evaluate expression m => exact h.1
  | check p m => rfl
  | tokens expression => rfl

/-- What a request evaluates: lines, and values for the placeholders in them. An assignment comes
before what a file says. -/
inductive Poses (read : Reader) (d : Disk) : Request → Dictionary Text Text → List Text → Prop where
  | line {expression : Text} {m : Manner} {values : Dictionary Text Text}
      (assigned : assigned? m.assignments = some values) :
      Poses read d (.evaluate expression m) values [expression]
  | lines {p : Path} {m : Manner} {file : ConditionsFile} {values : Dictionary Text Text}
      (loaded : ConditionsFile.load read d p = .ok file)
      (assigned : assigned? m.assignments = some values) :
      Poses read d (.check p m) (Dictionary.insertAll file.placeholders values) file.lines

section
variable (around : Surroundings) (d : Disk) (g : General) (task : Task) (rest : List String)

def loadedConsole : Console where
  stdout := ""
  logger := (Logger.start d).logAll around.time (loadRecords around d g.config)
  said := loadRecords around d g.config

def setUp (journal : JournalConfig) : Option Logger.ConfigureFault × Logger :=
  (loadedConsole around d g).logger.configure around.environment.homes journal around.time .none

inductive Prepares : Config → Disk → Prop where
  | intro {config : Config} {journal : JournalConfig} {l : Logger}
      (loaded : (Settings.load d around.environment g.config).1 = .ok config)
      (overridden : config.journal.override g.overrides = .ok journal)
      (configured : setUp around d g journal = (none, l)) : Prepares config l.disk

def Accepts : Prop := ∀ config d', Prepares around d g config d' →
  ∃ request, around.commandLine.request d' task rest = .ok request

structure Reaches (config : Config) (d' : Disk) (request : Request) : Prop where
  prepares : Prepares around d g config d'
  read : around.commandLine.request d' task rest = .ok request

structure Evaluates (config : Config) (d' : Disk) (request : Request)
    (values : Dictionary Text Text) (lines : List Text) : Prop where
  reaches : Reaches around d g task rest config d' request
  poses : Poses around.reader d' request values lines
  cache : ∃ entries, config.engine.cacheEntries = .ok entries

inductive Judged : Bool → Prop where
  | intro {config : Config} {d' : Disk} {request : Request} {values : Dictionary Text Text}
      {lines : List Text} {text : String}
      (evaluates : Evaluates around d g task rest config d' request values lines)
      (runs : ¬ request.Stalls config.engine lines)
      (told : request.isLenient = true ∨ ∀ line ∈ lines, (truth? values line).isSome = true)
      (written : (request.verdict lines (lines.all (passes values))).text request.format =
        .ok text) :
      Judged (lines.all (passes values))

inductive Refused : ExitCode → Prop where
  | config {fault : Settings.LoadFault}
      (loaded : (Settings.load d around.environment g.config).1 = .error fault)
      (reported : fault.isReported = true) : Refused .configError
  | assignment {config : Config} {d' : Disk} {request : Request}
      (reaches : Reaches around d g task rest config d' request)
      (file : ∀ p m, request = .check p m →
        ∃ file, ConditionsFile.load around.reader d' p = .ok file)
      (assigned : assigned? request.assignments = none) : Refused .invalidInput
  | missing {config : Config} {d' : Disk} {p p' : Path} {m : Manner}
      (reaches : Reaches around d g task rest config d' (.check p m))
      (file : ConditionsFile.load around.reader d' p = .error (.missing p')) :
      Refused .targetNotFound
  | file {config : Config} {d' : Disk} {p : Path} {m : Manner} {fault : FileFault}
      (reaches : Reaches around d g task rest config d' (.check p m))
      (file : ConditionsFile.load around.reader d' p = .error fault)
      (unfit : fault.ending = .exit .invalidInput) : Refused .invalidInput
  | malformed {config : Config} {d' : Disk} {expression : Text} {m : Manner}
      {values : Dictionary Text Text} {lines : List Text}
      (evaluates : Evaluates around d g task rest config d' (.evaluate expression m) values lines)
      (blocking : m.onWorker = false) (malformed : truth? values expression = none) :
      Refused .parseError

inductive Unforeseen : Crash → Prop where
  | config {fault : Settings.LoadFault}
      (escapes : Settings.Escapes d around.environment g.config fault) : Unforeseen (.load fault)
  | journal {config : Config} {journal : JournalConfig} {l : Logger}
      {fault : Logger.ConfigureFault}
      (loaded : (Settings.load d around.environment g.config).1 = .ok config)
      (overridden : config.journal.override g.overrides = .ok journal)
      (configured : setUp around d g journal = (some fault, l)) : Unforeseen (.configure fault)
  | bytes {config : Config} {d' : Disk} {p : Path} {m : Manner} {bytes : List Nat}
      {fault : Text.Utf8Fault} (reaches : Reaches around d g task rest config d' (.check p m))
      (found : ConditionsFile.bytes d' p = .ok bytes)
      (decoded : Text.decodeUtf8 bytes = .error fault) : Unforeseen (.undecodable fault)
  | reader {config : Config} {d' : Disk} {p : Path} {m : Manner} {r : Raised}
      (reaches : Reaches around d g task rest config d' (.check p m))
      (file : ConditionsFile.load around.reader d' p = .error (.raised r)) :
      Unforeseen (.raised r)
  | place {config : Config} {d' : Disk} {p : Path} {m : Manner} {fault : Files.Fault}
      (reaches : Reaches around d g task rest config d' (.check p m))
      (unknown : d'.lookUp p = .error fault) : Unforeseen (.unknown fault)
  | cache {config : Config} {d' : Disk} {request : Request} {values : Dictionary Text Text}
      {lines : List Text} {fault : Settings.CacheFault}
      (reaches : Reaches around d g task rest config d' request)
      (poses : Poses around.reader d' request values lines)
      (cache : config.engine.cacheEntries = .error fault) : Unforeseen (.cache fault)
  | verdict {config : Config} {d' : Disk} {request : Request} {values : Dictionary Text Text}
      {lines : List Text} {fault : Json.WriteFault}
      (evaluates : Evaluates around d g task rest config d' request values lines)
      (runs : ¬ request.Stalls config.engine lines)
      (told : request.isLenient = true ∨ ∀ line ∈ lines, (truth? values line).isSome = true)
      (written : (request.verdict lines (lines.all (passes values))).text request.format =
        .error fault) : Unforeseen (.unwritten fault)

inductive Waits : Prop where
  | intro {config : Config} {d' : Disk} {request : Request} {values : Dictionary Text Text}
      {lines : List Text}
      (evaluates : Evaluates around d g task rest config d' request values lines)
      (stalls : request.Stalls config.engine lines) : Waits

end

section
variable {read : Reader} {d : Disk} {p : Path}

theorem load_undecodable {bytes : List Nat} {fault : Text.Utf8Fault}
    (hfound : ConditionsFile.bytes d p = .ok bytes)
    (hdecoded : Text.decodeUtf8 bytes = .error fault) :
    ConditionsFile.load read d p = .error (.undecodable fault) := by
  unfold ConditionsFile.load
  rw [hfound]
  change (Text.decodeUtf8 bytes).mapError FileFault.undecodable >>= _ = _
  rw [hdecoded]
  rfl

theorem load_unknown {fault : Files.Fault} (hfound : d.lookUp p = .error fault) :
    ConditionsFile.load read d p = .error (.unknown fault) := by
  unfold ConditionsFile.load ConditionsFile.bytes
  rw [hfound]
  rfl

theorem linesOf_fault {v : Content} {fault : FileFault}
    (h : ConditionsFile.linesOf v = .error fault) : fault = .conditions := by
  unfold ConditionsFile.linesOf at h
  split at h
  · cases h
  · cases htexts : ConditionsFile.texts? _ with
    | none =>
      rw [htexts] at h
      cases h
      rfl
    | some lines =>
      rw [htexts] at h
      cases h
  · cases h
    rfl

theorem placeholdersOf_fault {v : Content} {fault : FileFault}
    (h : ConditionsFile.placeholdersOf v = .error fault) :
    fault = .placeholders ∨ ∃ r, fault = .raised r := by
  unfold ConditionsFile.placeholdersOf at h
  split at h
  · rename_i entries shown
    generalize (List.mapM _ entries : Except Raised (List (Text × Text))) = texts at h
    cases texts with
    | ok pairs => cases h
    | error r =>
      cases h
      exact .inr ⟨r, rfl⟩
  · split at h <;> cases h
    exact .inl rfl

/-- A text that is read as a file of conditions may be unfit, or the reader may fail. -/
theorem ofText_fault {t : Text} {fault : FileFault}
    (h : ConditionsFile.ofText read p t = .error fault) :
    fault.ending = .exit .invalidInput ∨ ∃ r, fault = .raised r := by
  unfold ConditionsFile.ofText at h
  split at h
  · rename_i v hread
    unfold ConditionsFile.ofContent at h
    split at h
    · rcases error_of_bind h with hplaceholders | ⟨placeholders, -, h⟩
      · rcases placeholdersOf_fault hplaceholders with rfl | hraised
        · exact .inl rfl
        · exact .inr hraised
      · rcases error_of_bind h with hlines | ⟨lines, -, h⟩
        · exact .inl (congrArg FileFault.ending (linesOf_fault hlines))
        · cases h
    · rcases error_of_bind h with hlines | ⟨lines, -, h⟩
      · exact .inl (congrArg FileFault.ending (linesOf_fault hlines))
      · cases h
  · cases h
    exact .inl rfl
  · cases h
    exact .inr ⟨_, rfl⟩

theorem bytes_fault {fault : FileFault} (h : ConditionsFile.bytes d p = .error fault) :
    fault = .missing p ∨ fault.ending = .exit .invalidInput ∨
      ∃ unknown, fault = .unknown unknown ∧ d.lookUp p = .error unknown := by
  unfold ConditionsFile.bytes at h
  split at h
  · rename_i unknown hunknown
    cases h
    exact .inr (.inr ⟨unknown, rfl, hunknown⟩)
  · cases hread : d.read p with
    | ok bytes =>
      rw [hread] at h
      cases h
    | error reason =>
      rw [hread] at h
      cases h
      exact .inr (.inl rfl)
  · cases h
    exact .inl rfl

theorem load_fault {fault : FileFault} (h : ConditionsFile.load read d p = .error fault) :
    (∃ p', fault = .missing p') ∨ fault.ending = .exit .invalidInput ∨
      (∃ r, fault = .raised r) ∨
      (∃ unknown, fault = .unknown unknown ∧ d.lookUp p = .error unknown) ∨
      ∃ bytes undecodable, fault = .undecodable undecodable ∧
        ConditionsFile.bytes d p = .ok bytes ∧ Text.decodeUtf8 bytes = .error undecodable := by
  unfold ConditionsFile.load at h
  rcases error_of_bind h with hbytes | ⟨bytes, hbytes, h⟩
  · rcases bytes_fault hbytes with rfl | hunfit | hunknown
    · exact .inl ⟨p, rfl⟩
    · exact .inr (.inl hunfit)
    · exact .inr (.inr (.inr (.inl hunknown)))
  · cases hdecoded : Text.decodeUtf8 bytes with
    | error undecodable =>
      rw [hdecoded] at h
      cases h
      exact .inr (.inr (.inr (.inr ⟨bytes, undecodable, rfl, hbytes, hdecoded⟩)))
    | ok t =>
      rw [hdecoded] at h
      rcases ofText_fault h with hunfit | hraised
      · exact .inr (.inl hunfit)
      · exact .inr (.inr (.inl hraised))

end

section
variable {around : Surroundings} {d : Disk} {g : General} {task : Task} {rest words : List String}

theorem run_of_ends {k : Console} {ending : Ending} (h : Ends around (runWords words) k ending) :
    (run around words k).1 = ending := by
  obtain ⟨k', hk'⟩ := h
  unfold run
  rw [hk']

variable (hread : around.commandLine.general d words = .ok (g, task, rest))
include hread

theorem runWords_general {ending : Ending}
    (h : Ends around (do
      let config ← loadConfig g.config
      configureJournal config g
      let request ← usage (around.commandLine.request (← disk) task rest)
      perform config.engine request) (Console.start d) ending) :
    Ends around (runWords words) (Console.start d) ending := by
  have husage : Gives around (usage (around.commandLine.general d words)) (Console.start d)
      (g, task, rest) (Console.start d) := by
    rw [hread]
    exact .pure _ _
  exact read_gives.ends (disk_gives.ends (husage.ends h))

theorem runWords_fault {fault : Settings.LoadFault}
    (h : (Settings.load d around.environment g.config).1 = .error fault) :
    Ends around (runWords words) (Console.start d)
      (if fault.isReported then .exit .configError else .crash (.load fault)) :=
  runWords_general hread (loadConfig_ends (k := Console.start d) h).bind

theorem runWords_journal {config : Config} {journal : JournalConfig} {l : Logger}
    {fault : Logger.ConfigureFault}
    (hloaded : (Settings.load d around.environment g.config).1 = .ok config)
    (hjournal : config.journal.override g.overrides = .ok journal)
    (h : setUp around d g journal = (some fault, l)) :
    Ends around (runWords words) (Console.start d) (.crash (.configure fault)) :=
  runWords_general hread ((loadConfig_gives (k := Console.start d) hloaded).ends
    (configureJournal_ends (k := loadedConsole around d g) hjournal h).bind)

theorem runWords_request {config : Config} {d' : Disk} {request : Request} {ending : Ending}
    (h : Reaches around d g task rest config d' request)
    (hperform : ∀ k : Console, k.logger.disk = d' →
      Ends around (perform config.engine request) k ending) :
    Ends around (runWords words) (Console.start d) ending := by
  obtain ⟨hprepares, hrequest⟩ := h
  cases hprepares with
  | @intro journal l loaded overridden configured =>
    have husage : Gives around (usage (around.commandLine.request l.disk task rest))
        { loadedConsole around d g with logger := l } request
        { loadedConsole around d g with logger := l } := by
      rw [hrequest]
      exact .pure _ _
    exact runWords_general hread ((loadConfig_gives (k := Console.start d) loaded).ends
      ((configureJournal_gives (k := loadedConsole around d g) overridden configured).ends
        (disk_gives.ends (husage.ends (hperform _ rfl)))))

omit hread

/-- Before the journal is configured, nothing that is said reaches a file. -/
theorem log_disk {l : Logger} (h : l.handlers = []) (time : Journal.Instant) (r : Journal.Record) :
    (l.log time r).disk = l.disk ∧ (l.log time r).handlers = [] := by
  have hbare : (l.logBare r).disk = l.disk ∧ (l.logBare r).handlers = [] := by
    unfold Logger.logBare
    split <;> exact ⟨rfl, h⟩
  unfold Logger.log
  split
  · exact hbare
  · split
    · exact ⟨rfl, h⟩
    · simp only [h, List.isEmpty_nil, if_true]
      split
      · exact hbare
      · exact ⟨rfl, h⟩

theorem logAll_disk {l : Logger} (h : l.handlers = []) (time : Journal.Instant)
    (rs : List Journal.Record) : (l.logAll time rs).disk = l.disk := by
  unfold Logger.logAll
  induction rs generalizing l with
  | nil => rfl
  | cons r rs ih =>
    obtain ⟨hdisk, hhandlers⟩ := log_disk h time r
    rw [List.foldl_cons, ih hhandlers, hdisk]

theorem prepares_without_file {config : Config} {journal : JournalConfig}
    (hloaded : (Settings.load d around.environment g.config).1 = .ok config)
    (hjournal : config.journal.override g.overrides = .ok journal) (hfile : journal.file = none) :
    Prepares around d g config d := by
  have hsetUp : setUp around d g journal =
      (none, ((loadedConsole around d g).logger.clear journal).attachOwn journal none) := by
    unfold setUp Logger.configure
    rw [hfile]
  have hdisk : (((loadedConsole around d g).logger.clear journal).attachOwn journal none).disk = d :=
    logAll_disk rfl _ _
  have hprepares := Prepares.intro hloaded hjournal hsetUp
  rwa [hdisk] at hprepares

section
variable {m : Manner} {values : Dictionary Text Text} {c : Settings.EngineConfig}
  {finish : Bool → Ending} {entries : Int}

theorem line_ending (line : Text) :
    answerEnding finish (evaluateLine c m.onWorker m.caller line (commandSetup values entries)
        (.start (commandSetup values entries) ())).1 =
      if m.onWorker = true ∧ startsWorkers c = false then .waits
      else if m.onWorker = false ∧ truth? values line = none then .exit .parseError
      else finish (passes values line) := by
  rw [evaluateLine_answer, awaited]
  cases m.onWorker with
  | true => cases startsWorkers c <;> rfl
  | false =>
    unfold passes truth?
    cases Expression.parse line <;> rfl

theorem lines_ending (lines : List Text) :
    answerEnding finish (evaluateLines c m.onWorker m.caller lines (commandSetup values entries)
        (.start (commandSetup values entries) ())).1 =
      if m.onWorker = true ∧ startsWorkers c = false ∧ lines ≠ [] then .waits
      else finish (lines.all (passes values)) := by
  rw [evaluateLines_answer, awaited]
  cases m.onWorker with
  | true => cases startsWorkers c <;> cases lines <;> rfl
  | false => rfl

end

include hread

theorem evaluates_ends {config : Config} {d' : Disk} {request : Request}
    {values : Dictionary Text Text} {lines : List Text}
    (h : Evaluates around d g task rest config d' request values lines)
    (htold : request.isLenient = true ∨ ∀ line ∈ lines, (truth? values line).isSome = true) :
    Ends around (runWords words) (Console.start d)
      (if request.Stalls config.engine lines then .waits
        else (request.verdict lines (lines.all (passes values))).ending request.format) := by
  obtain ⟨reaches, poses, entries, hcache⟩ := h
  refine runWords_request hread reaches fun k hk => ?_
  cases poses with
  | @line expression m _ assigned =>
    have hanswered : Ends around (perform config.engine (.evaluate expression m)) k _ :=
      evaluate_answered assigned hcache
    have hwell : ¬ (m.onWorker = false ∧ truth? values expression = none) := by
      rintro ⟨hblocking, hmalformed⟩
      rcases htold with hlenient | hall
      · exact absurd (hlenient.symm.trans hblocking) (by decide)
      · have htruth := hall expression List.mem_cons_self
        rw [hmalformed] at htruth
        cases htruth
    have hstalls : (Request.evaluate expression m).Stalls config.engine [expression] ↔
        m.onWorker = true ∧ startsWorkers config.engine = false := by
      simp [Request.Stalls, Request.onWorker]
    rw [line_ending, if_neg hwell] at hanswered
    simpa [hstalls, Request.verdict, Request.format] using hanswered
  | @lines p m file values' loaded assigned =>
    subst hk
    have hanswered : Ends around (perform config.engine (.check p m)) k _ :=
      check_answered loaded assigned hcache
    rw [lines_ending] at hanswered
    exact hanswered

theorem judged_ends {passed : Bool} (h : Judged around d g task rest passed) :
    Ends around (runWords words) (Console.start d) (.exit (verdictCode passed)) := by
  cases h with
  | @intro config d' request values lines text evaluates runs told written =>
    have hends := evaluates_ends hread evaluates told
    have hending : (request.verdict lines (lines.all (passes values))).ending request.format =
        .exit (verdictCode (lines.all (passes values))) := by
      unfold Verdict.ending
      rw [written]
      cases request <;> rfl
    rwa [if_neg runs, hending] at hends

theorem waits_ends (h : Waits around d g task rest) :
    Ends around (runWords words) (Console.start d) .waits := by
  cases h with
  | intro evaluates stalls =>
    have hends := evaluates_ends hread evaluates (.inl stalls.isLenient)
    rwa [if_pos stalls] at hends

theorem refused_ends {code : ExitCode} (h : Refused around d g task rest code) :
    Ends around (runWords words) (Console.start d) (.exit code) := by
  cases h with
  | config loaded reported =>
    have hfault : Ends around (runWords words) (Console.start d) _ := runWords_fault hread loaded
    rw [reported] at hfault
    exact hfault
  | @assignment config d' request reaches file assigned =>
    refine runWords_request hread reaches fun k hk => ?_
    cases request with
    | evaluate expression m => exact evaluate_assignment assigned
    | check p m =>
      subst hk
      obtain ⟨file, hfile⟩ := file p m rfl
      exact check_assignment hfile assigned
    | tokens expression => cases assigned
  | missing reaches file =>
    refine runWords_request hread reaches fun k hk => ?_
    subst hk
    exact check_file file
  | file reaches file unfit =>
    refine runWords_request hread reaches fun k hk => ?_
    subst hk
    rw [← unfit]
    exact check_file file
  | @malformed config d' expression m values lines evaluates blocking malformed =>
    obtain ⟨reaches, poses, entries, hcache⟩ := evaluates
    refine runWords_request hread reaches fun k hk => ?_
    cases poses with
    | line assigned =>
      have hanswered : Ends around (perform config.engine (.evaluate expression m)) k _ :=
        evaluate_answered assigned hcache
      have hruns : ¬ (m.onWorker = true ∧ startsWorkers config.engine = false) := by
        simp [blocking]
      rwa [line_ending, if_neg hruns, if_pos ⟨blocking, malformed⟩] at hanswered

theorem unforeseen_ends {c : Crash} (h : Unforeseen around d g task rest c) :
    Ends around (runWords words) (Console.start d) (.crash c) := by
  cases h with
  | config escapes =>
    obtain ⟨hloaded, hreported⟩ := (Settings.load_fault_escapes_iff _ _ _ _).mpr escapes
    have hfault : Ends around (runWords words) (Console.start d) _ :=
      runWords_fault hread hloaded
    rw [hreported] at hfault
    exact hfault
  | journal loaded overridden configured =>
    exact runWords_journal hread loaded overridden configured
  | bytes reaches found decoded =>
    refine runWords_request hread reaches fun k hk => ?_
    subst hk
    exact check_file (load_undecodable found decoded)
  | reader reaches file =>
    refine runWords_request hread reaches fun k hk => ?_
    subst hk
    exact check_file file
  | place reaches unknown =>
    refine runWords_request hread reaches fun k hk => ?_
    subst hk
    exact check_file (load_unknown unknown)
  | @cache config d' request values lines fault reaches poses cache =>
    refine runWords_request hread reaches fun k hk => ?_
    cases poses with
    | line assigned => exact evaluate_cache assigned cache
    | lines loaded assigned =>
      subst hk
      exact check_cache loaded assigned cache
  | @verdict config d' request values lines fault evaluates runs told written =>
    have hends := evaluates_ends hread evaluates told
    have hending : (request.verdict lines (lines.all (passes values))).ending request.format =
        .crash (.unwritten fault) := by
      unfold Verdict.ending
      rw [written]
    rwa [if_neg runs, hending] at hends

end

end Conditions.Command
