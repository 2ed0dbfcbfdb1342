import Conditions.Settings.Setting
import Conditions.Text.Lowercase

/-!
# Configurations

The settings of the evaluator and of the journal. A configuration is made of the values that are
given, over the defaults, and only if they are allowed.
-/

set_option autoImplicit false

namespace Conditions.Settings
open Files (Path)

structure EngineConfig where
  maxWorkers : Setting
  cacheSize : Setting
  threadName : Setting
  deriving Repr, Inhabited

structure JournalConfig where
  level : String
  file : Option Path
  format : String
  includeStderr : Setting
  maxBytes : Setting
  backupCount : Setting
  deriving Repr, Inhabited

structure Config where
  engine : EngineConfig
  journal : JournalConfig
  deriving Repr, Inhabited

def engineKeys : List String := ["max_workers", "cache_size", "thread_name_prefix"]

def journalKeys : List String :=
  ["level", "file", "format", "include_stderr", "max_bytes", "backup_count"]

def engineDefaults : EngineConfig := ⟨.int 4, .int 0, .string "condexpr"⟩

def journalDefaults : JournalConfig :=
  ⟨"info", none, "text", .bool false, .int 10485760, .int 5⟩

def requireBelow (s : Setting) (bound : Int) : Except SettingFault Bool :=
  match s.rank? with
  | some x => .ok (Setting.below x bound)
  | none => .error (.unordered s.kind)

namespace EngineConfig

def check (c : EngineConfig) : Except SettingFault EngineConfig := do
  if ← requireBelow c.maxWorkers 1 then throw (.tooFewWorkers c.maxWorkers)
  if ← requireBelow c.cacheSize 0 then throw (.negativeCache c.cacheSize)
  pure c

def ofFields (f : Fields) : Except SettingFault EngineConfig :=
  check
    ⟨(f.find? "max_workers").getD engineDefaults.maxWorkers,
     (f.find? "cache_size").getD engineDefaults.cacheSize,
     (f.find? "thread_name_prefix").getD engineDefaults.threadName⟩

end EngineConfig

inductive CacheFault where
  | notWhole
  | tooLarge
  deriving DecidableEq, Repr

def CacheFault.message : CacheFault → String
  | .notWhole => "Expected first argument to be an integer, a callable, or None"
  | .tooLarge => "cannot fit 'int' into an index-sized integer"

def EngineConfig.cacheEntries (c : EngineConfig) : Except CacheFault Int :=
  match c.cacheSize.rank? with
  | some (.inl n) => if n < pow2 63 then .ok n else .error .tooLarge
  | some (.inr x) => if Setting.above (.inr x) 0 then .error .notWhole else .ok 0
  | none => .error .notWhole

def lower (s : String) : String := String.ofList (Text.lower s.toList)

def requireText (s : Setting) : Except SettingFault String :=
  match s with
  | .value (.string s) => .ok s
  | s => .error (.notText s.kind)

namespace JournalConfig

def checkLevel (level : String) : Except SettingFault Unit :=
  if levels.contains (lower level) then .ok () else .error (.unknownLevel level)

def checkFormat (format : String) : Except SettingFault Unit :=
  if formats.contains (lower format) then .ok () else .error (.unknownFormat format)

def check (c : JournalConfig) : Except SettingFault JournalConfig := do
  checkLevel c.level
  checkFormat c.format
  pure c

def ofFields (f : Fields) : Except SettingFault JournalConfig := do
  let level ← requireText ((f.find? "level").getD (.string journalDefaults.level))
  checkLevel level
  let format ← requireText ((f.find? "format").getD (.string journalDefaults.format))
  checkFormat format
  pure
    { level
      file := match f.find? "file" with
        | some (.path p) => some p
        | _ => none
      format
      includeStderr := (f.find? "include_stderr").getD journalDefaults.includeStderr
      maxBytes := (f.find? "max_bytes").getD journalDefaults.maxBytes
      backupCount := (f.find? "backup_count").getD journalDefaults.backupCount }

structure Overrides where
  level : Option String
  file : Option Path
  format : Option String
  includeStderr : Option Setting

def Overrides.none : Overrides := ⟨.none, .none, .none, .none⟩

def override (c : JournalConfig) (o : Overrides) : Except SettingFault JournalConfig :=
  check { c with
    level := o.level.getD c.level
    file := o.file <|> c.file
    format := o.format.getD c.format
    includeStderr := o.includeStderr.getD c.includeStderr }

end JournalConfig

end Conditions.Settings
