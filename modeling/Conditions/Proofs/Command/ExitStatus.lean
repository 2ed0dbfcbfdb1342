import Conditions.Proofs.Command.Stages

/-!
# What the exit status tells

A command that evaluates conditions exits with zero exactly if they hold. It exits with one if they
do not hold, and also if it is cut short by a fault that none of its stages expects. All other
failures have exit codes of their own; only a command that waits for lines that nobody runs never
exits. All this is so for every reader of documents, and for every reader of command lines that
takes none but known levels from them.
-/

set_option autoImplicit false

namespace Conditions.Command
open Files (Path Disk)
open Settings (Config JournalConfig)

def CommandLine.ChoosesLevel (l : CommandLine) : Prop :=
  ∀ {d words g task rest}, l.general d words = .ok (g, task, rest) →
    ∀ level ∈ g.logLevel, Settings.lower level ∈ Settings.levels

section
variable {around : Surroundings} {d : Disk} {g : General} {task : Task} {rest words : List String}

theorem overrides_ok (hlevels : around.commandLine.ChoosesLevel)
    (hread : around.commandLine.general d words = .ok (g, task, rest)) {config : Config}
    (hloaded : (Settings.load d around.environment g.config).1 = .ok config) :
    ∃ journal, config.journal.override g.overrides = .ok journal := by
  obtain ⟨hlevel, hformat⟩ := Settings.load_ok_valid hloaded
  refine ⟨_, (JournalConfig.override_eq_ok_iff g.overrides hlevel hformat).mpr
    ⟨⟨hlevels hread, fun format hjson => ?_⟩, rfl⟩⟩
  have hknown : Settings.lower "json" ∈ Settings.formats := by decide
  unfold General.overrides at hjson
  cases hj : g.logJson with
  | true =>
    simp only [hj, if_true] at hjson
    cases hjson
    exact hknown
  | false =>
    simp only [hj] at hjson
    cases hjson

theorem request_task {l : CommandLine} {d' : Disk} {request : Request} (htask : task ≠ .tokens)
    (h : l.request d' task rest = .ok request) :
    (∃ expression m, request = .evaluate expression m) ∨ ∃ p m, request = .check p m := by
  unfold CommandLine.request at h
  cases task with
  | evaluate =>
    cases hread : l.evaluate d' rest with
    | error fault =>
      rw [hread] at h
      cases h
    | ok read =>
      rw [hread] at h
      cases h
      exact .inl ⟨_, _, rfl⟩
  | check =>
    cases hread : l.check d' rest with
    | error fault =>
      rw [hread] at h
      cases h
    | ok read =>
      rw [hread] at h
      cases h
      exact .inr ⟨_, _, rfl⟩
  | tokens => exact absurd rfl htask

section
variable (around d g task rest)

inductive Outcome : Ending → Prop where
  | judged {passed : Bool} (judged : Judged around d g task rest passed) :
      Outcome (.exit (verdictCode passed))
  | refused {code : ExitCode} (refused : Refused around d g task rest code) : Outcome (.exit code)
  | unforeseen {c : Crash} (unforeseen : Unforeseen around d g task rest c) : Outcome (.crash c)
  | waits (waits : Waits around d g task rest) : Outcome .waits

end

theorem outcome_evaluates {config : Config} {d' : Disk} {request : Request}
    {values : Dictionary Text Text} {lines : List Text}
    (h : Evaluates around d g task rest config d' request values lines)
    (htold : request.isLenient = true ∨ ∀ line ∈ lines, (truth? values line).isSome = true) :
    ∃ ending, Outcome around d g task rest ending := by
  by_cases hstalls : request.Stalls config.engine lines
  · exact ⟨_, .waits (.intro h hstalls)⟩
  cases hwritten : (request.verdict lines (lines.all (passes values))).text request.format with
  | ok text => exact ⟨_, .judged (.intro h hstalls htold hwritten)⟩
  | error fault => exact ⟨_, .unforeseen (.verdict h hstalls htold hwritten)⟩

theorem outcome_evaluate {config : Config} {d' : Disk} {expression : Text} {m : Manner}
    (h : Reaches around d g task rest config d' (.evaluate expression m)) :
    ∃ ending, Outcome around d g task rest ending := by
  cases hassigned : assigned? m.assignments with
  | none => exact ⟨_, .refused (.assignment h (fun _ _ h => nomatch h) hassigned)⟩
  | some values =>
  have hposes : Poses around.reader d' (.evaluate expression m) values [expression] :=
    .line hassigned
  cases hcache : config.engine.cacheEntries with
  | error fault => exact ⟨_, .unforeseen (.cache h hposes hcache)⟩
  | ok entries =>
  have hevaluates : Evaluates around d g task rest config d' (.evaluate expression m) values
      [expression] := ⟨h, hposes, entries, hcache⟩
  cases hworker : m.onWorker with
  | true => exact outcome_evaluates hevaluates (.inl hworker)
  | false =>
  cases htruth : truth? values expression with
  | none => exact ⟨_, .refused (.malformed hevaluates hworker htruth)⟩
  | some told => exact outcome_evaluates hevaluates (.inr (by simp [htruth]))

theorem outcome_check {config : Config} {d' : Disk} {p : Path} {m : Manner}
    (h : Reaches around d g task rest config d' (.check p m)) :
    ∃ ending, Outcome around d g task rest ending := by
  cases hfile : ConditionsFile.load around.reader d' p with
  | error fault =>
    rcases load_fault hfile with ⟨p', rfl⟩ | hunfit | ⟨r, rfl⟩ | ⟨unknown, rfl, hunknown⟩ |
      ⟨bytes, undecodable, rfl, hfound, hdecoded⟩
    · exact ⟨_, .refused (.missing h hfile)⟩
    · exact ⟨_, .refused (.file h hfile hunfit)⟩
    · exact ⟨_, .unforeseen (.reader h hfile)⟩
    · exact ⟨_, .unforeseen (.place h hunknown)⟩
    · exact ⟨_, .unforeseen (.bytes h hfound hdecoded)⟩
  | ok file =>
  cases hassigned : assigned? m.assignments with
  | none =>
    refine ⟨_, .refused (.assignment h (fun _ _ hrequest => ?_) hassigned)⟩
    cases hrequest
    exact ⟨file, hfile⟩
  | some values =>
  have hposes := Poses.lines hfile hassigned
  cases hcache : config.engine.cacheEntries with
  | error fault => exact ⟨_, .unforeseen (.cache h hposes hcache)⟩
  | ok entries => exact outcome_evaluates ⟨h, hposes, entries, hcache⟩ (.inl rfl)

section
variable (hlevels : around.commandLine.ChoosesLevel)
  (hread : around.commandLine.general d words = .ok (g, task, rest)) (htask : task ≠ .tokens)
  (haccepts : Accepts around d g task rest)
include hlevels hread htask haccepts

theorem outcome_total : ∃ ending, Outcome around d g task rest ending := by
  cases hloaded : (Settings.load d around.environment g.config).1 with
  | error fault =>
    cases hreported : fault.isReported with
    | true => exact ⟨_, .refused (.config hloaded hreported)⟩
    | false =>
      have hescapes := (Settings.load_fault_escapes_iff ..).mp ⟨hloaded, hreported⟩
      exact ⟨_, .unforeseen (.config hescapes)⟩
  | ok config =>
  obtain ⟨journal, hjournal⟩ := overrides_ok hlevels hread hloaded
  cases hsetUp : setUp around d g journal with
  | mk fault l =>
  cases fault with
  | some fault => exact ⟨_, .unforeseen (.journal hloaded hjournal hsetUp)⟩
  | none =>
  have hprepares : Prepares around d g config l.disk := .intro hloaded hjournal hsetUp
  obtain ⟨request, hrequest⟩ := haccepts config l.disk hprepares
  rcases request_task htask hrequest with ⟨expression, m, rfl⟩ | ⟨p, m, rfl⟩
  · exact outcome_evaluate ⟨hprepares, hrequest⟩
  · exact outcome_check ⟨hprepares, hrequest⟩

theorem run_eq_iff {ending : Ending} :
    (run around words (Console.start d)).1 = ending ↔ Outcome around d g task rest ending := by
  have hends : ∀ {ending}, Outcome around d g task rest ending →
      (run around words (Console.start d)).1 = ending := by
    intro ending h
    cases h with
    | judged judged => exact run_of_ends (judged_ends hread judged)
    | refused refused => exact run_of_ends (refused_ends hread refused)
    | unforeseen unforeseen => exact run_of_ends (unforeseen_ends hread unforeseen)
    | waits waits => exact run_of_ends (waits_ends hread waits)
  constructor
  · rintro rfl
    obtain ⟨ending, h⟩ := outcome_total hlevels hread htask haccepts
    rwa [hends h]
  · exact hends

end

def refusals : List ExitCode := [.configError, .invalidInput, .targetNotFound, .parseError]

theorem Refused.code_mem {code : ExitCode} (h : Refused around d g task rest code) :
    code ∈ refusals := by
  cases h <;> decide

theorem verdictCode_not_mem (passed : Bool) : verdictCode passed ∉ refusals := by
  cases passed <;> decide

theorem verdictCode_inj {passed passed' : Bool} (h : verdictCode passed = verdictCode passed') :
    passed = passed' := by
  cases passed <;> cases passed' <;> first | rfl | cases h

theorem outcome_verdict_iff {passed : Bool} :
    Outcome around d g task rest (.exit (verdictCode passed)) ↔
      Judged around d g task rest passed := by
  refine ⟨fun h => ?_, .judged⟩
  generalize hcode : verdictCode passed = code at h
  cases h with
  | judged judged =>
    rw [verdictCode_inj hcode]
    exact judged
  | refused refused =>
    rw [← hcode] at refused
    exact absurd refused.code_mem (verdictCode_not_mem passed)

theorem outcome_refusal_iff {code : ExitCode} (hcode : code ∈ refusals) :
    Outcome around d g task rest (.exit code) ↔ Refused around d g task rest code := by
  refine ⟨fun h => ?_, .refused⟩
  cases h with
  | judged judged => exact absurd hcode (verdictCode_not_mem _)
  | refused refused => exact refused

theorem outcome_crash_iff {c : Crash} :
    Outcome around d g task rest (.crash c) ↔ Unforeseen around d g task rest c := by
  refine ⟨fun h => ?_, .unforeseen⟩
  cases h with
  | unforeseen unforeseen => exact unforeseen

theorem outcome_waits_iff :
    Outcome around d g task rest .waits ↔ Waits around d g task rest := by
  refine ⟨fun h => ?_, .waits⟩
  cases h with
  | waits waits => exact waits

theorem Ending.status_eq_zero_iff {e : Ending} : e.status = some 0 ↔ e = .exit .success := by
  cases e with
  | exit code => cases code <;> simp [Ending.status, ExitCode.number]
  | _ => simp [Ending.status]

theorem Ending.status_eq_one_iff {e : Ending} :
    e.status = some 1 ↔ e = .exit .conditionFalse ∨ ∃ c, e = .crash c := by
  cases e with
  | exit code => cases code <;> simp [Ending.status, ExitCode.number]
  | _ => simp [Ending.status]

theorem Outcome.status_mem {ending : Ending} (h : Outcome around d g task rest ending)
    (hzero : ending.status ≠ some 0) (hone : ending.status ≠ some 1) (hends : ending ≠ .waits) :
    ending.status ∈ [some 11, some 12, some 20, some 51] := by
  cases h with
  | @judged passed judged =>
    cases passed with
    | true => exact absurd rfl hzero
    | false => exact absurd rfl hone
  | refused refused =>
    have hnumbers : ∀ code ∈ refusals,
        (Ending.exit code).status ∈ [some 11, some 12, some 20, some 51] := by decide
    exact hnumbers _ refused.code_mem
  | unforeseen => exact absurd rfl hone
  | waits => exact absurd rfl hends

end

section

def plainGeneral : General := ⟨none, none, none, false⟩

def plainManner (assignments : List String) : Manner :=
  ⟨assignments.map String.toList, none, false, .text⟩

def plainLine : CommandLine where
  general _
    | "eval" :: rest => .ok (plainGeneral, .evaluate, rest)
    | "check" :: rest => .ok (plainGeneral, .check, rest)
    | _ => .error .misused
  evaluate _
    | [expression] => .ok (expression.toList, plainManner [])
    | _ => .error .misused
  check _
    | [file] => .ok (.read file, plainManner [])
    | [file, "--set", assignment] => .ok (.read file, plainManner [assignment])
    | _ => .error .misused
  tokens _ _ := .error .misused

theorem plainLine_choosesLevel : plainLine.ChoosesLevel := by
  intro d words g task rest h level hlevel
  have hgeneral : g = plainGeneral := by
    unfold plainLine at h
    dsimp only at h
    split at h <;> cases h <;> rfl
  rw [hgeneral] at hlevel
  cases hlevel

def plainSurroundings (read : Reader) : Surroundings :=
  ⟨⟨[], ⟨⟨"/", ["home"]⟩, fun _ => none⟩⟩, ⟨0⟩, plainLine, read⟩

def unread : Reader := fun _ => .error (.invalid "no document")

theorem plain_prepares (read : Reader) (bytes : List Nat) :
    Prepares (plainSurroundings read) (Settings.diskWith "c.yaml" bytes) plainGeneral
      ⟨Settings.engineDefaults, Settings.journalDefaults⟩ (Settings.diskWith "c.yaml" bytes) := by
  have hchecked : Settings.checkedConfig (plainSurroundings read).environment [] =
      .ok ⟨Settings.engineDefaults, Settings.journalDefaults⟩ := rfl
  have hloaded : (Settings.load (Settings.diskWith "c.yaml" bytes)
      (plainSurroundings read).environment none).1 =
        .ok ⟨Settings.engineDefaults, Settings.journalDefaults⟩ := by
    rw [← hchecked]
    refine Settings.load_eq_iff.mpr (.merged (p := ⟨"/", ["home", ".condexpr", "config.toml"]⟩) rfl
      (.missing rfl) ⟨rfl, rfl, ?_, none, rfl⟩)
    rintro v ⟨⟩
  have hjournal : Settings.journalDefaults.override plainGeneral.overrides =
      .ok Settings.journalDefaults := rfl
  exact prepares_without_file hloaded hjournal rfl

end

end Conditions.Command
