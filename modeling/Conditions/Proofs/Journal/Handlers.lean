import Conditions.Journal.Logger
import Mathlib.Data.List.Basic

/-!
# Handlers of the logger

Whatever has been done to the logger before, a configuration leaves the handlers that do not carry
the context filter, in their order, and puts its own behind them: one for the log file if it could
be opened, and one for the standard error stream if that is asked for or if there is no file.
-/

set_option autoImplicit false

namespace Conditions.Journal
open Files (Homes Path Disk)
open Settings (JournalConfig)

inductive Change where
  | attach (h : Handler)
  | configure (homes : Homes) (c : JournalConfig) (time : Instant) (context : Context)
  | log (time : Instant) (r : Record)
  | files (disk : Disk)

namespace Change

def attached? : Change → Option Handler
  | .attach h => some h
  | _ => none

def attached (changes : List Change) : List Handler := changes.filterMap attached?

def isConfigure : Change → Bool
  | .configure .. => true
  | _ => false

end Change

def foreign (handlers : List Handler) : List Handler := handlers.filter fun h => !h.isOwn

namespace Logger

def alter (l : Logger) : Change → Logger
  | .attach h => l.attach h
  | .configure homes c time context => (l.configure homes c time context).2
  | .log time r => l.log time r
  | .files disk => { l with disk }

def after (l : Logger) (changes : List Change) : Logger := changes.foldl alter l

/-- The file of a configuration has a place: the home directory that it may ask for is known, there
is no null character in it, and its size limit is a number. Whether it can be opened is another
question. -/
def HasPlace (homes : Homes) (c : JournalConfig) : Prop :=
  ∀ p, c.file = some p → ∃ place, p.expandHome homes = .ok place ∧ place.hasNull = false ∧
    c.maxBytes.rank?.isSome

section
variable (l : Logger) (h : Handler) (time : Instant) (r : Record)

theorem handle_handlers : (l.handle h time r).handlers = l.handlers := by
  unfold handle
  split <;> rfl

theorem logBare_handlers : (l.logBare r).handlers = l.handlers := by
  unfold logBare
  split <;> rfl

theorem log_handlers : (l.log time r).handlers = l.handlers := by
  have hall : ∀ (handlers : List Handler) (l : Logger),
      (handlers.foldl (fun l h => l.handle h time r) l).handlers = l.handlers := by
    intro handlers
    induction handlers with
    | nil => exact fun l => rfl
    | cons h handlers ih => exact fun l => (ih _).trans (handle_handlers l h time r)
  unfold log
  split
  · exact logBare_handlers l r
  · split
    · rfl
    · split
      · split
        · exact logBare_handlers l r
        · rfl
      · exact hall l.handlers l

end

/-- A file that has a place is opened, or it is told why not. -/
theorem openFile_ok (d : Disk) {homes : Homes} {p : Path} {c : JournalConfig} (h : HasPlace homes c)
    (hfile : c.file = some p) : ∃ opened disk, openFile d homes p c = .ok (opened, disk) := by
  obtain ⟨place, hplace, hnull, hrank⟩ := h p hfile
  have hparent : place.parent.hasNull = false := by
    unfold Path.hasNull at hnull ⊢
    rw [List.any_eq_false] at hnull ⊢
    exact fun part hpart => hnull part (List.dropLast_subset _ hpart)
  have hnumber : c.maxBytes.rank?.isNone = false := by
    rw [← Option.not_isSome, hrank]
    rfl
  unfold openFile
  simp only [hplace, hparent, hnull, hnumber, Bool.false_eq_true, if_false]
  split
  · exact ⟨_, _, rfl⟩
  · split
    · exact ⟨_, _, rfl⟩
    · exact ⟨_, _, rfl⟩

def ours (c : JournalConfig) (file : Option RotatingFile) : List Handler :=
  (sinksOf c file).map (own c)

theorem ours_own {c : JournalConfig} {file : Option RotatingFile} :
    ∀ h ∈ ours c file, h.isOwn = true := by
  intro h hmem
  obtain ⟨sink, -, rfl⟩ := List.mem_map.mp hmem
  rfl

theorem ours_eq (c : JournalConfig) (file : Option RotatingFile) :
    ours c file = (file.toList.map fun f => own c (.file f)) ++
      if c.includeStderr.isTruthy || file.isNone then [own c .stderr] else [] := by
  cases file with
  | none => simp [ours, sinksOf]
  | some f => cases hstderr : c.includeStderr.isTruthy <;> simp [ours, sinksOf, hstderr]

theorem configure_handlers (l : Logger) {homes : Homes} {c : JournalConfig} (h : HasPlace homes c)
    (time : Instant) (context : Context) :
    (l.configure homes c time context).1 = none ∧ ∃ file,
      (l.configure homes c time context).2.handlers = foreign l.handlers ++ ours c file ∧
      ∀ f, file = some f ↔
        ∃ p disk, c.file = some p ∧ openFile l.disk homes p c = .ok (.ok f, disk) := by
  unfold configure
  dsimp only
  cases hfile : c.file with
  | none => exact ⟨rfl, none, rfl, by simp⟩
  | some p =>
    obtain ⟨opened, disk, hopen⟩ := openFile_ok l.disk h hfile
    have hdisk : (l.clear c).disk = l.disk := rfl
    dsimp only
    rw [hdisk, hopen]
    cases opened with
    | ok f => exact ⟨rfl, some f, rfl, by simp [hopen, eq_comm]⟩
    | error fault => exact ⟨rfl, none, log_handlers .., by simp [hopen]⟩

/-- A configuration that is left unfinished has taken the marked handlers off all the same. -/
theorem configure_foreign (l : Logger) (homes : Homes) (c : JournalConfig) (time : Instant)
    (context : Context) :
    foreign (l.configure homes c time context).2.handlers = foreign l.handlers := by
  have hclear : foreign (l.clear c).handlers = foreign l.handlers :=
    List.filter_filter.trans (by simp [foreign])
  have hattach : ∀ (disk : Disk) (file : Option RotatingFile),
      foreign ({ l.clear c with disk }.attachOwn c file).handlers = foreign l.handlers := by
    intro disk file
    have hours : foreign (ours c file) = [] :=
      List.filter_eq_nil_iff.mpr fun h hmem => by simp [ours_own h hmem]
    change foreign ((l.clear c).handlers ++ ours c file) = _
    rw [foreign, List.filter_append, ← foreign, ← foreign, hclear, hours, List.append_nil]
  unfold configure
  dsimp only
  split
  · exact hattach l.disk none
  · split
    · exact hclear
    · exact hattach _ _
    · rw [log_handlers]
      exact hattach _ _

theorem alter_foreign (l : Logger) (change : Change) :
    foreign (l.alter change).handlers =
      foreign l.handlers ++ foreign (Change.attached [change]) := by
  cases change with
  | attach h => exact List.filter_append ..
  | configure homes c time context => exact (configure_foreign ..).trans (List.append_nil _).symm
  | log time r => exact (congrArg foreign (log_handlers ..)).trans (List.append_nil _).symm
  | files disk => exact (List.append_nil _).symm

theorem after_foreign (l : Logger) (changes : List Change) :
    foreign (l.after changes).handlers =
      foreign l.handlers ++ foreign (Change.attached changes) := by
  induction changes generalizing l with
  | nil => exact (List.append_nil _).symm
  | cons change changes ih =>
    have hattached : Change.attached (change :: changes) =
        Change.attached [change] ++ Change.attached changes := List.filterMap_append (l := [change])
    change foreign ((l.alter change).after changes).handlers = _
    rw [ih, alter_foreign, hattached, foreign, foreign, foreign, foreign, List.filter_append,
      List.append_assoc]

theorem after_handlers (l : Logger) {changes : List Change}
    (h : ∀ change ∈ changes, change.isConfigure = false) :
    (l.after changes).handlers = l.handlers ++ Change.attached changes := by
  induction changes generalizing l with
  | nil => exact (List.append_nil _).symm
  | cons change changes ih =>
    have hrest := ih (l.alter change) fun other hmem => h other (List.mem_cons_of_mem _ hmem)
    change ((l.alter change).after changes).handlers = _
    rw [hrest]
    cases change with
    | attach handler => exact List.append_assoc ..
    | configure homes c time context => cases h _ List.mem_cons_self
    | log time r => exact congrArg (· ++ _) (log_handlers ..)
    | files disk => rfl

def blocked : Disk := .ofList ["work"] [(.read "blocker", .file [])]

def alone : Homes := ⟨.read "/home", fun _ => none⟩

def logTo (file : String) : JournalConfig :=
  { Settings.journalDefaults with file := some (.read file), includeStderr := .bool true }

def collector : Handler := ⟨.null, none, [.other "audit"]⟩

theorem logTo_hasPlace : HasPlace alone (logTo "blocker/a.log") := by
  rintro p ⟨⟩
  have hexpand : (Path.read "blocker/a.log").expandHome alone = .ok (.read "blocker/a.log") := by
    decide +kernel
  exact ⟨_, hexpand, by decide +kernel, rfl⟩

/-- A configuration that is left unfinished is one whose log file has no place. The handlers of the
earlier ones are gone by then, and there are none of its own. -/
theorem configure_unfinished (l : Logger) {homes : Homes} {c : JournalConfig} {time : Instant}
    {context : Context} {fault : ConfigureFault}
    (h : (l.configure homes c time context).1 = some fault) :
    ¬ HasPlace homes c ∧ (l.configure homes c time context).2.handlers = foreign l.handlers := by
  refine ⟨fun hplace => ?_, ?_⟩
  · obtain ⟨hends, -⟩ := configure_handlers l hplace time context
    rw [hends] at h
    cases h
  · revert h
    unfold configure
    dsimp only
    split
    · exact fun h => nomatch h
    · split
      · exact fun _ => rfl
      · exact fun h => nomatch h
      · exact fun h => nomatch h

/-- Nobody else is known, so the log file of the second configuration has no place. -/
example :
    let l := ((start blocked).configure alone Settings.journalDefaults ⟨0⟩ .none).2
    let l' := l.configure alone (logTo "~nobody/a.log") ⟨0⟩ .none
    l.handlers.length = 1 ∧ l'.1 = some (.home .unknown) ∧ l'.2.handlers.length = 0 := by
  decide +kernel

end Logger

end Conditions.Journal
