import Conditions.Proofs.Command.Judgement

/-!
# Commands step by step

A step of a command gives something and leaves a console behind, or it ends the command. For every
step it is said when it does which.
-/

set_option autoImplicit false

namespace Conditions.Command
open Files (Path Disk)
open Journal (Record Logger)
open Settings (Config EngineConfig JournalConfig)
open Evaluator (Failure)

namespace Action

variable {α β : Type} {around : Surroundings}

def Gives (around : Surroundings) (x : Action α) (c : Console) (a : α) (c' : Console) : Prop :=
  (x.run around).run.run c = (.ok a, c')

def Ends (around : Surroundings) (x : Action α) (c : Console) (ending : Ending) : Prop :=
  ∃ c', (x.run around).run.run c = (.error ending, c')

theorem run_bind (x : Action α) (f : α → Action β) (c : Console) :
    ((x >>= f).run around).run.run c = match (x.run around).run.run c with
      | (.ok a, c') => ((f a).run around).run.run c'
      | (.error ending, c') => (.error ending, c') := by
  rw [ReaderT.run_bind, ExceptT.run_bind, StateT.run_bind]
  cases (x.run around).run.run c with
  | mk answer c' => cases answer <;> rfl

section
variable {x : Action α} {f : α → Action β} {c c' c'' : Console} {a : α} {b : β} {ending : Ending}

theorem Gives.bind (hx : Gives around x c a c') (hf : Gives around (f a) c' b c'') :
    Gives around (x >>= f) c b c'' := by
  unfold Gives at *
  rw [run_bind, hx]
  exact hf

theorem Gives.ends (hx : Gives around x c a c') (hf : Ends around (f a) c' ending) :
    Ends around (x >>= f) c ending := by
  obtain ⟨c'', hf⟩ := hf
  unfold Gives at hx
  exact ⟨c'', by rw [run_bind, hx]; exact hf⟩

theorem Ends.bind (hx : Ends around x c ending) : Ends around (x >>= f) c ending := by
  obtain ⟨c', hx⟩ := hx
  exact ⟨c', by rw [run_bind, hx]⟩

end

theorem Gives.pure (a : α) (c : Console) : Gives around (Pure.pure a) c a c := rfl

theorem Ends.throw (ending : Ending) (c : Console) :
    Ends around (MonadExcept.throw ending : Action α) c ending := ⟨c, rfl⟩

end Action

open Conditions.Command.Action (Gives Ends)

section
variable {around : Surroundings} {k : Console}

theorem fail_ends {α : Type} (f : Format) (code : ExitCode) (message : String) :
    Ends around (fail f code message : Action α) k (.exit code) := ⟨_, rfl⟩

theorem disk_gives : Gives around disk k k.logger.disk k := rfl

theorem read_gives : Gives around (read : Action Surroundings) k around k := rfl

theorem get_gives : Gives around (get : Action Console) k k k := rfl

theorem say_gives (records : List Record) : Gives around (say records) k ()
    { k with logger := k.logger.logAll around.time records, said := k.said ++ records } := rfl

def assignment? (item : Text) : Option (Text × Text) :=
  match Text.splitAt? '=' item with
  | some (key, value) => if (Text.strip key).isEmpty then none else some (Text.strip key, value)
  | none => none

def assigned? (items : List Text) : Option (Dictionary Text Text) :=
  (items.mapM assignment?).map Dictionary.ofList

def readAssignment (f : Format) (item : Text) : Action (Text × Text) :=
  match Text.splitAt? '=' item with
  | some (key, value) =>
    if (Text.strip key).isEmpty then assignments.invalid f item else pure (Text.strip key, value)
  | none => assignments.invalid f item

theorem readAssignment_gives {f : Format} {item : Text} {pair : Text × Text}
    (h : assignment? item = some pair) : Gives around (readAssignment f item) k pair k := by
  unfold assignment? at h
  unfold readAssignment
  split at h
  · split at h
    · cases h
    · rename_i hkey
      cases h
      simp only [hkey]
      exact .pure _ k
  · cases h

theorem readAssignment_ends {f : Format} {item : Text} (h : assignment? item = none) :
    Ends around (readAssignment f item) k (.exit .invalidInput) := by
  unfold assignment? at h
  unfold readAssignment
  split at h
  · split at h
    · rename_i hkey
      simp only [hkey, if_true]
      exact fail_ends ..
    · cases h
  · exact fail_ends ..

variable (around k) in
theorem readAssignments (f : Format) (items : List Text) :
    match items.mapM assignment? with
    | some pairs => Gives around (items.mapM (readAssignment f)) k pairs k
    | none => Ends around (items.mapM (readAssignment f)) k (.exit .invalidInput) := by
  induction items with
  | nil => exact .pure [] k
  | cons item items ih =>
    rw [List.mapM_cons, List.mapM_cons]
    cases hitem : assignment? item with
    | none => exact (readAssignment_ends hitem).bind
    | some pair =>
      cases hitems : items.mapM assignment? with
      | none =>
        rw [hitems] at ih
        exact (readAssignment_gives hitem).ends ih.bind
      | some pairs =>
        rw [hitems] at ih
        exact (readAssignment_gives hitem).bind (ih.bind (.pure _ k))

theorem assignments_gives {f : Format} {items : List Text} {values : Dictionary Text Text}
    (h : assigned? items = some values) : Gives around (assignments f items) k values k := by
  obtain ⟨pairs, hpairs, rfl⟩ := Option.map_eq_some_iff.mp h
  have hread := readAssignments around k f items
  rw [hpairs] at hread
  exact hread.bind (.pure _ k)

theorem assignments_ends {f : Format} {items : List Text} (h : assigned? items = none) :
    Ends around (assignments f items) k (.exit .invalidInput) := by
  have hread := readAssignments around k f items
  rw [Option.map_eq_none_iff.mp h] at hread
  exact hread.bind

section
variable {c : EngineConfig} {values : Dictionary Text Text}

variable (around k values) in
theorem withEvaluator_gives {n : Int} (h : c.cacheEntries = .ok n) (work : Work) :
    ∃ k', Gives around (withEvaluator c values work) k
      (work (commandSetup values n) (.start (commandSetup values n) ())).1 k' := by
  unfold withEvaluator
  rw [h]
  exact ⟨_, rfl⟩

theorem withEvaluator_ends {fault : Settings.CacheFault} (h : c.cacheEntries = .error fault)
    (work : Work) : Ends around (withEvaluator c values work) k (.crash (.cache fault)) := by
  unfold withEvaluator
  rw [h]
  exact .throw _ k

end

def verdictCode (passed : Bool) : ExitCode := if passed then .success else .conditionFalse

def Verdict.ending (v : Verdict) (f : Format) : Ending :=
  match v.text f with
  | .ok _ => .exit v.code
  | .error fault => .crash (.unwritten fault)

theorem conclude_ends (f : Format) (v : Verdict) : Ends around (conclude f v) k (v.ending f) := by
  unfold conclude Verdict.ending
  cases v.text f with
  | ok text => exact ⟨_, rfl⟩
  | error fault => exact ⟨_, rfl⟩

def answerEnding (finish : Bool → Ending) : Except Failure Waited → Ending
  | .ok (.result passed) => finish passed
  | .ok .interrupted => .exit .interrupted
  | .ok .forever => .waits
  | .error _ => .exit .parseError

def settleAnswer (f : Format) (next : Bool → Action Unit) : Except Failure Waited → Action Unit
  | .ok waited => do next (← await f waited)
  | .error failure => do next (← failureOf f failure)

theorem settleAnswer_ends (f : Format) {next : Bool → Action Unit} {finish : Bool → Ending}
    (hnext : ∀ passed, Ends around (next passed) k (finish passed))
    (answer : Except Failure Waited) :
    Ends around (settleAnswer f next answer) k (answerEnding finish answer) := by
  cases answer with
  | ok waited =>
    cases waited with
    | result passed =>
      have hawait : Gives around (await f (.result passed)) k passed k := .pure _ k
      exact hawait.ends (hnext passed)
    | interrupted =>
      have hawait : Ends around (await f .interrupted) k (.exit .interrupted) :=
        (say_gives _).ends (fail_ends ..)
      exact hawait.bind
    | forever =>
      have hawait : Ends around (await f .forever) k .waits := .throw _ k
      exact hawait.bind
  | error failure =>
    have hfailure : Ends around (failureOf f failure) k (.exit .parseError) := by
      unfold failureOf
      cases failure <;> exact fail_ends ..
    exact hfailure.bind

section
variable {c : EngineConfig} {expression : Text} {m : Manner}

theorem evaluate_assignment (h : assigned? m.assignments = none) :
    Ends around (evaluate c expression m) k (.exit .invalidInput) := (assignments_ends h).bind

variable {values : Dictionary Text Text} (hvalues : assigned? m.assignments = some values)
include hvalues

theorem evaluate_cache {fault : Settings.CacheFault} (h : c.cacheEntries = .error fault) :
    Ends around (evaluate c expression m) k (.crash (.cache fault)) :=
  (assignments_gives hvalues).ends (withEvaluator_ends h _).bind

theorem evaluate_answered {n : Int} (h : c.cacheEntries = .ok n) :
    let u := commandSetup values n
    Ends around (evaluate c expression m) k (answerEnding
      (fun passed => (lineVerdict expression passed).ending m.format)
      (evaluateLine c m.onWorker m.caller expression u (.start u ())).1) := by
  intro u
  obtain ⟨k', hk'⟩ := withEvaluator_gives around k values h
    (evaluateLine c m.onWorker m.caller expression)
  exact (assignments_gives hvalues).ends (hk'.ends
    (settleAnswer_ends m.format (fun passed => conclude_ends ..) _))

end

def FileFault.ending : FileFault → Ending
  | .missing _ => .exit .targetNotFound
  | .unreadable _ _ | .placeholders | .conditions => .exit .invalidInput
  | .undecodable fault => .crash (.undecodable fault)
  | .raised r => .crash (.raised r)
  | .unknown fault => .crash (.unknown fault)

section
variable {p : Path} {c : EngineConfig} {m : Manner}

theorem loadFile_ends {f : Format} {fault : FileFault}
    (h : ConditionsFile.load around.reader k.logger.disk p = .error fault) :
    Ends around (loadFile f p) k fault.ending := by
  refine read_gives.ends (disk_gives.ends ?_)
  rw [h]
  cases fault with
  | undecodable | raised | unknown => exact .throw _ k
  | _ => exact fail_ends ..

theorem check_file {fault : FileFault}
    (h : ConditionsFile.load around.reader k.logger.disk p = .error fault) :
    Ends around (check c p m) k fault.ending := (loadFile_ends h).bind

variable {file : ConditionsFile}
  (hfile : ConditionsFile.load around.reader k.logger.disk p = .ok file)
include hfile

theorem loadFile_gives (f : Format) : Gives around (loadFile f p) k file k := by
  refine read_gives.bind (disk_gives.bind ?_)
  rw [hfile]
  exact .pure file k

theorem check_assignment (h : assigned? m.assignments = none) :
    Ends around (check c p m) k (.exit .invalidInput) :=
  (loadFile_gives hfile _).ends (assignments_ends h).bind

variable {values : Dictionary Text Text} (hvalues : assigned? m.assignments = some values)
include hvalues

theorem check_cache {fault : Settings.CacheFault} (h : c.cacheEntries = .error fault) :
    Ends around (check c p m) k (.crash (.cache fault)) :=
  (loadFile_gives hfile _).ends ((assignments_gives hvalues).ends (withEvaluator_ends h _).bind)

theorem check_answered {n : Int} (h : c.cacheEntries = .ok n) :
    let u := commandSetup (Dictionary.insertAll file.placeholders values) n
    Ends around (check c p m) k (answerEnding
      (fun passed => (fileVerdict p file.lines.length passed).ending m.format)
      (evaluateLines c m.onWorker m.caller file.lines u (.start u ())).1) := by
  intro u
  obtain ⟨k', hk'⟩ := withEvaluator_gives around k
    (Dictionary.insertAll file.placeholders values) h
    (evaluateLines c m.onWorker m.caller file.lines)
  have hnext : ∀ passed, Ends around (do
      sayPlainly [checked file.lines.length p passed]
      conclude m.format (fileVerdict p file.lines.length passed)) k'
      ((fileVerdict p file.lines.length passed).ending m.format) := by
    intro passed
    exact (say_gives _).ends (conclude_ends ..)
  exact (loadFile_gives hfile _).ends ((assignments_gives hvalues).ends (hk'.ends
    (settleAnswer_ends m.format hnext _)))

end

section
variable {path : Option Path}

def loadRecords (around : Surroundings) (d : Disk) (path : Option Path) : List Record :=
  (Settings.load d around.environment path).2.map fun e => ⟨e, .none⟩

theorem loadConfig_gives {config : Config}
    (h : (Settings.load k.logger.disk around.environment path).1 = .ok config) :
    Gives around (loadConfig path) k config
      { k with
        logger := k.logger.logAll around.time (loadRecords around k.logger.disk path)
        said := k.said ++ loadRecords around k.logger.disk path } := by
  refine disk_gives.bind (read_gives.bind ?_)
  unfold loadRecords
  cases hload : Settings.load k.logger.disk around.environment path with
  | mk answer said =>
    rw [hload] at h
    cases h
    exact (say_gives _).bind (.pure config _)

theorem loadConfig_ends {fault : Settings.LoadFault}
    (h : (Settings.load k.logger.disk around.environment path).1 = .error fault) :
    Ends around (loadConfig path) k
      (if fault.isReported then .exit .configError else .crash (.load fault)) := by
  refine disk_gives.ends (read_gives.ends ?_)
  cases hload : Settings.load k.logger.disk around.environment path with
  | mk answer said =>
    rw [hload] at h
    cases h
    refine (say_gives _).ends ?_
    dsimp only
    cases fault.isReported with
    | true => exact fail_ends ..
    | false => exact .throw _ _

end

def General.overrides (g : General) : JournalConfig.Overrides :=
  ⟨g.logLevel, g.logFile, if g.logJson then some "json" else none, none⟩

section
variable {config : Config} {g : General} {journal : JournalConfig}
  (hjournal : config.journal.override g.overrides = .ok journal)
include hjournal

theorem configureJournal_gives {l : Logger}
    (h : k.logger.configure around.environment.homes journal around.time .none = (none, l)) :
    Gives around (configureJournal config g) k () { k with logger := l } := by
  unfold configureJournal
  unfold General.overrides at hjournal
  simp only [hjournal]
  refine read_gives.bind (get_gives.bind ?_)
  rw [h]
  rfl

theorem configureJournal_ends {fault : Logger.ConfigureFault} {l : Logger}
    (h : k.logger.configure around.environment.homes journal around.time .none = (some fault, l)) :
    Ends around (configureJournal config g) k (.crash (.configure fault)) := by
  unfold configureJournal
  unfold General.overrides at hjournal
  simp only [hjournal]
  refine read_gives.ends (get_gives.ends ?_)
  rw [h]
  exact ⟨_, rfl⟩

end

end

end Conditions.Command
