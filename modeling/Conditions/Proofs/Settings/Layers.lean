import Conditions.Proofs.Dictionary
import Conditions.Proofs.Settings.Loading

/-!
# The layers of a configuration

The value of a field is what the environment says, or else what the file says, or else the default.
Only these merged values are checked, so a value that is overridden may be anything.
-/

set_option autoImplicit false

namespace Conditions.Settings
open Files (Path Disk HomeFault)
open Journal (Entry)
open Loading

def member? (t : Toml.Table) (name key : String) : Option Toml.Value :=
  (section? t name).bind fun members => Dictionary.find? members key

def filed (t : Toml.Table) (name key : String) : Option Setting := (member? t name key).map .value

def layered (environment file : Option Setting) (default : Setting) : Setting :=
  (environment.or file).getD default

section
variable (e : Environment) (t : Toml.Table)

def mergedEngine : EngineConfig where
  maxWorkers := layered (e.number? "CONDEXPR_MAX_WORKERS") (filed t "engine" "max_workers")
    engineDefaults.maxWorkers
  cacheSize := layered (e.number? "CONDEXPR_CACHE_SIZE") (filed t "engine" "cache_size")
    engineDefaults.cacheSize
  threadName := layered none (filed t "engine" "thread_name_prefix") engineDefaults.threadName

def mergedLevel : Setting :=
  layered (e.word? "CONDEXPR_LOG_LEVEL") (filed t "logging" "level")
    (.string journalDefaults.level)

def mergedFormat : Setting :=
  layered (e.word? "CONDEXPR_LOG_FORMAT") (filed t "logging" "format")
    (.string journalDefaults.format)

def filePath? : Option Path :=
  match member? t "logging" "file" with
  | some (.string s) => ((Path.read s).expandHome e.homes).toOption
  | _ => none

def mergedFile : Option Path :=
  match e.text? "CONDEXPR_LOG_FILE" with
  | some s => ((Path.read s).expandHome e.homes).toOption
  | none => filePath? e t

def mergedJournal (level format : String) : JournalConfig where
  level
  file := mergedFile e t
  format
  includeStderr := layered none (filed t "logging" "include_stderr") journalDefaults.includeStderr
  maxBytes := layered none (filed t "logging" "max_bytes") journalDefaults.maxBytes
  backupCount := layered none (filed t "logging" "backup_count") journalDefaults.backupCount

def checkedJournal : Except SettingFault JournalConfig := do
  let level ← requireText (mergedLevel e t)
  JournalConfig.checkLevel level
  let format ← requireText (mergedFormat e t)
  JournalConfig.checkFormat format
  pure (mergedJournal e t level format)

def checkedConfig : Except LoadFault Config :=
  ((mergedEngine e t).check.mapError reportFault).bind fun engine =>
    ((checkedJournal e t).mapError reportFault).map fun journal => ⟨engine, journal⟩

end

theorem find?_knownFields (members : Toml.Table) (known : List String) (key : String) :
    (knownFields members known).find? key =
      if known.contains key then (Dictionary.find? members key).map .value else none := by
  unfold knownFields
  rw [Dictionary.find?_map, Dictionary.find?_filter]
  split <;> rfl

theorem find?_fieldOf (k : String) (s : Option Setting) (key : String) :
    (fieldOf k s).find? key = if key == k then s else none := by
  cases s with
  | none => simp [fieldOf]
  | some s => simp [fieldOf, Dictionary.find?_cons]

theorem reverse_fieldOf (k : String) (s : Option Setting) : (fieldOf k s).reverse = fieldOf k s := by
  cases s <;> rfl

theorem filed_of_section {t : Toml.Table} {name : String} {members : Toml.Table}
    (h : section? t name = some members) (key : String) :
    filed t name key = (Dictionary.find? members key).map .value := by
  simp [filed, member?, h]

theorem engine_ofFields (e : Environment) {t members : Toml.Table}
    (h : section? t "engine" = some members) :
    EngineConfig.ofFields ((knownFields members engineKeys).insertAll
      (fieldOf "max_workers" (e.number? "CONDEXPR_MAX_WORKERS") ++
        fieldOf "cache_size" (e.number? "CONDEXPR_CACHE_SIZE"))) = (mergedEngine e t).check := by
  unfold EngineConfig.ofFields mergedEngine layered
  simp [Dictionary.find?_insertAll, Dictionary.find?_append, reverse_fieldOf, find?_fieldOf,
    find?_knownFields, filed_of_section h, engineKeys]

theorem mergedFile_of_path {e : Environment} {file : Option Path}
    (h : e.path? "CONDEXPR_LOG_FILE" = .ok file) (t : Toml.Table) :
    mergedFile e t = file.or (filePath? e t) := by
  unfold Environment.path? at h
  unfold mergedFile
  cases htext : e.text? "CONDEXPR_LOG_FILE" with
  | none =>
    rw [htext] at h
    cases h
    rfl
  | some s =>
    rw [htext] at h
    cases hp : (Path.read s).expandHome e.homes with
    | error fault =>
      simp only [hp] at h
      cases h
    | ok p =>
      simp only [hp] at h
      cases h
      simp [hp, Except.toOption]

structure Resolved (e : Environment) (t : Toml.Table) (f : Fields) : Prop where
  file : f.find? "file" = (filePath? e t).map .path
  others : ∀ key ∈ journalKeys, key ≠ "file" → f.find? key = filed t "logging" key

def Locatable (e : Environment) (t : Toml.Table) : Prop :=
  ∀ v, member? t "logging" "file" = some v →
    ∃ s p, v = .string s ∧ (Path.read s).expandHome e.homes = .ok p

theorem locatable_of_filePath? {e : Environment} {t : Toml.Table} {p : Path}
    (h : filePath? e t = some p) : Locatable e t := by
  intro v hv
  unfold filePath? at h
  rw [hv] at h
  cases v with
  | string s => exact ⟨s, p, rfl, ok_of_toOption h⟩
  | _ => cases h

theorem find?_journal {t members : Toml.Table} (h : section? t "logging" = some members)
    {key : String} (hkey : key ∈ journalKeys) :
    (knownFields members journalKeys).find? key = filed t "logging" key := by
  rw [find?_knownFields, if_pos (by simpa using hkey), filed_of_section h]

theorem resolveFile_resolved {e : Environment} {t members : Toml.Table}
    (h : section? t "logging" = some members) (hlocatable : Locatable e t) :
    ∃ f, Gives (resolveFile e.homes (knownFields members journalKeys)) (.ok f) [] ∧
      Resolved e t f := by
  have hfile := find?_journal h (by decide : "file" ∈ journalKeys)
  cases hmember : member? t "logging" "file" with
  | none =>
    have hnone : (knownFields members journalKeys).find? "file" = none := by
      rw [hfile, filed, hmember]
      rfl
    refine ⟨_, resolveFile_none hnone, ?_, fun key hkey _ => find?_journal h hkey⟩
    rw [hnone, filePath?, hmember]
    rfl
  | some v =>
    obtain ⟨s, p, rfl, hp⟩ := hlocatable v hmember
    have hsome : (knownFields members journalKeys).find? "file" = some (.string s) := by
      rw [hfile, filed, hmember]
      rfl
    refine ⟨_, resolveFile_path hsome hp, ?_, fun key hkey hne => ?_⟩
    · rw [Dictionary.find?_insert, filePath?, hmember]
      simp [hp, Except.toOption]
    · rw [Dictionary.find?_insert, find?_journal h hkey]
      simp [hne]

theorem journal_ofFields {e : Environment} {t : Toml.Table} {f : Fields} {file : Option Path}
    (hf : Resolved e t f) (hvariable : e.path? "CONDEXPR_LOG_FILE" = .ok file) :
    JournalConfig.ofFields (f.insertAll (fieldOf "level" (e.word? "CONDEXPR_LOG_LEVEL") ++
      fieldOf "file" (file.map .path) ++ fieldOf "format" (e.word? "CONDEXPR_LOG_FORMAT"))) =
      checkedJournal e t := by
  have hlookup : ∀ key, (f.insertAll (fieldOf "level" (e.word? "CONDEXPR_LOG_LEVEL") ++
      fieldOf "file" (file.map .path) ++ fieldOf "format" (e.word? "CONDEXPR_LOG_FORMAT"))).find?
        key = ((if key == "format" then e.word? "CONDEXPR_LOG_FORMAT" else none).or
          ((if key == "file" then file.map .path else none).or
            (if key == "level" then e.word? "CONDEXPR_LOG_LEVEL" else none))).or (f.find? key) := by
    intro key
    rw [Dictionary.find?_insertAll, List.reverse_append, List.reverse_append]
    simp only [reverse_fieldOf, Dictionary.find?_append, find?_fieldOf]
  generalize f.insertAll _ = all at hlookup ⊢
  have hlevel : all.find? "level" =
      (e.word? "CONDEXPR_LOG_LEVEL").or (filed t "logging" "level") := by
    rw [hlookup, hf.others _ (by decide) (by decide)]
    simp
  have hformat : all.find? "format" =
      (e.word? "CONDEXPR_LOG_FORMAT").or (filed t "logging" "format") := by
    rw [hlookup, hf.others _ (by decide) (by decide)]
    simp
  have hfile : all.find? "file" = (mergedFile e t).map .path := by
    rw [hlookup, hf.file, mergedFile_of_path hvariable]
    cases file <;> simp
  have hplain : ∀ key ∈ ["include_stderr", "max_bytes", "backup_count"],
      all.find? key = filed t "logging" key := by
    intro key hkey
    simp only [List.mem_cons, List.not_mem_nil, or_false] at hkey
    rcases hkey with rfl | rfl | rfl <;>
    · rw [hlookup, hf.others _ (by decide) (by decide)]
      simp
  unfold JournalConfig.ofFields checkedJournal mergedLevel mergedFormat mergedJournal layered
  rw [hlevel, hformat, hfile, hplain _ (by decide), hplain _ (by decide), hplain _ (by decide)]
  cases mergedFile e t <;> rfl

def chosenPath (e : Environment) : Option Path → Except HomeFault Path
  | some p => .ok p
  | none => configPath e

theorem loadConfig_chosen {d : Disk} {e : Environment} {path : Option Path} {p : Path}
    (h : chosenPath e path = .ok p) : loadConfig d e path = loadConfig d e (some p) := by
  cases path with
  | some p' =>
    cases h
    rfl
  | none =>
    unfold loadConfig
    change configPath e = .ok p at h
    simp only [h]
    rfl

structure Merges (e : Environment) (t : Toml.Table) : Prop where
  engine : (section? t "engine").isSome = true
  logging : (section? t "logging").isSome = true
  file : Locatable e t
  variable_ : ∃ file, e.path? "CONDEXPR_LOG_FILE" = .ok file

def tableNotes (e : Environment) (t : Toml.Table) : List Entry :=
  unknownNotes "engine" ((section? t "engine").getD []) engineKeys ++
    unknownNotes "logging" ((section? t "logging").getD []) journalKeys ++
    (e.int? "CONDEXPR_MAX_WORKERS").2 ++ (e.int? "CONDEXPR_CACHE_SIZE").2

theorem loadConfig_merges {d : Disk} {e : Environment} {path : Option Path} {p : Path}
    {t : Toml.Table} {notes : List Entry} (hp : chosenPath e path = .ok p)
    (ho : Opened d p (.ok t) notes) (ht : Merges e t) :
    Gives (loadConfig d e path) (checkedConfig e t) (notes ++ tableNotes e t) := by
  obtain ⟨members, hmembers⟩ := Option.isSome_iff_exists.mp ht.engine
  obtain ⟨members', hmembers'⟩ := Option.isSome_iff_exists.mp ht.logging
  obtain ⟨f, hgives, hresolved⟩ := resolveFile_resolved hmembers' ht.file
  obtain ⟨file, hfile⟩ := ht.variable_
  have hchecked : Gives (do
      let engine ← ofExcept reportFault (mergedEngine e t).check
      let journal ← ofExcept reportFault (checkedJournal e t)
      pure ⟨engine, journal⟩) (checkedConfig e t) [] := by
    unfold checkedConfig
    cases (mergedEngine e t).check with
    | error fault => exact (Gives.throw _).stop
    | ok engine =>
      cases checkedJournal e t with
      | error fault => exact (Gives.pure _).bind (Gives.throw _).stop
      | ok journal => exact (Gives.pure _).bind ((Gives.pure _).bind (.pure _))
  have hnotes : notes ++ tableNotes e t = [] ++ (notes ++
      (unknownNotes "engine" members engineKeys ++ (unknownNotes "logging" members' journalKeys ++
        ([] ++ ((e.int? "CONDEXPR_MAX_WORKERS").2 ++ (e.int? "CONDEXPR_CACHE_SIZE").2 ++
          ([] ++ [])))))) := by
    simp [tableNotes, hmembers, hmembers']
  rw [← engine_ofFields e hmembers, ← journal_ofFields hresolved hfile] at hchecked
  rw [loadConfig_chosen hp, hnotes]
  exact (Gives.pure p).bind (ho.gives.bind ((loadSection_gives hmembers _).bind
    ((loadSection_gives hmembers' _).bind (hgives.bind ((engineVariables_gives e).bind
      ((journalVariables_gives hfile).bind hchecked))))))

theorem load_of_gives {d : Disk} {e : Environment} {path : Option Path}
    {answer : Except LoadFault Config} {notes : List Entry}
    (h : Gives (loadConfig d e path) answer notes) : load d e path = (answer, notes) :=
  h []

section
variable {e : Environment} {t : Toml.Table} {level format : String}

theorem EngineConfig.check_eq_ok_iff {c c' : EngineConfig} {workers entries : Int}
    (hworkers : c.maxWorkers.rank? = some (.inl workers))
    (hentries : c.cacheSize.rank? = some (.inl entries)) :
    c.check = .ok c' ↔ (1 ≤ workers ∧ 0 ≤ entries) ∧ c' = c := by
  have hbelow : c.check = if workers < 1 then .error (.tooFewWorkers c.maxWorkers)
      else if entries < 0 then .error (.negativeCache c.cacheSize) else .ok c := by
    unfold check requireBelow
    rw [hworkers, hentries]
    simp only [Setting.below, bind, Except.bind, decide_eq_true_eq]
    split
    · rfl
    · split <;> rfl
  rw [hbelow]
  split
  · simp only [reduceCtorEq, false_iff]
    omega
  · split
    · simp only [reduceCtorEq, false_iff]
      omega
    · rw [Except.ok.injEq]
      constructor
      · rintro rfl
        exact ⟨by omega, rfl⟩
      · rintro ⟨-, rfl⟩
        rfl

namespace JournalConfig

theorem checkLevel_eq_ok_iff : checkLevel level = .ok () ↔ lower level ∈ levels := by
  simp [checkLevel]

theorem checkLevel_eq_error_iff {fault : SettingFault} :
    checkLevel level = .error fault ↔ lower level ∉ levels ∧ fault = .unknownLevel level := by
  by_cases hknown : lower level ∈ levels <;> simp [checkLevel, hknown, eq_comm]

theorem checkFormat_eq_ok_iff : checkFormat format = .ok () ↔ lower format ∈ formats := by
  simp [checkFormat]

theorem checkFormat_eq_error_iff {fault : SettingFault} :
    checkFormat format = .error fault ↔ lower format ∉ formats ∧ fault = .unknownFormat format := by
  by_cases hknown : lower format ∈ formats <;> simp [checkFormat, hknown, eq_comm]

theorem check_eq_ok_iff {c c' : JournalConfig} :
    c.check = .ok c' ↔ (lower c.level ∈ levels ∧ lower c.format ∈ formats) ∧ c' = c := by
  constructor
  · intro h
    obtain ⟨_, hlevel, h⟩ := ok_of_bind h
    obtain ⟨_, hformat, h⟩ := ok_of_bind h
    cases h
    exact ⟨⟨checkLevel_eq_ok_iff.mp hlevel, checkFormat_eq_ok_iff.mp hformat⟩, rfl⟩
  · rintro ⟨⟨hlevel, hformat⟩, rfl⟩
    unfold check
    rw [checkLevel_eq_ok_iff.mpr hlevel, checkFormat_eq_ok_iff.mpr hformat]
    rfl

end JournalConfig

theorem checkedJournal_of_texts (hlevel : mergedLevel e t = .string level)
    (hformat : mergedFormat e t = .string format) :
    checkedJournal e t = (mergedJournal e t level format).check := by
  unfold checkedJournal
  rw [hlevel, hformat]
  rfl

theorem checkedConfig_parts {c : Config} : checkedConfig e t = .ok c ↔
    (mergedEngine e t).check = .ok c.engine ∧ checkedJournal e t = .ok c.journal := by
  obtain ⟨engine, journal⟩ := c
  unfold checkedConfig
  cases (mergedEngine e t).check with
  | error fault => exact ⟨fun h => (nomatch h), fun h => (nomatch h.1)⟩
  | ok engine' =>
    cases checkedJournal e t with
    | error fault => exact ⟨fun h => (nomatch h), fun h => (nomatch h.2)⟩
    | ok journal' =>
      constructor
      · rintro ⟨⟩
        exact ⟨rfl, rfl⟩
      · rintro ⟨⟨⟩, ⟨⟩⟩
        rfl

theorem checkedConfig_eq_ok_iff {workers entries : Int} {c : Config}
    (hworkers : (mergedEngine e t).maxWorkers.rank? = some (.inl workers))
    (hentries : (mergedEngine e t).cacheSize.rank? = some (.inl entries))
    (hlevel : mergedLevel e t = .string level) (hformat : mergedFormat e t = .string format) :
    checkedConfig e t = .ok c ↔
      (1 ≤ workers ∧ 0 ≤ entries ∧ lower level ∈ levels ∧ lower format ∈ formats) ∧
      c = ⟨mergedEngine e t, mergedJournal e t level format⟩ := by
  obtain ⟨engine, journal⟩ := c
  rw [checkedConfig_parts, checkedJournal_of_texts hlevel hformat,
    EngineConfig.check_eq_ok_iff hworkers hentries, JournalConfig.check_eq_ok_iff]
  rw [Config.mk.injEq]
  constructor
  · rintro ⟨⟨⟨hworkers, hentries⟩, hengine⟩, ⟨hlevel, hformat⟩, hjournal⟩
    exact ⟨⟨hworkers, hentries, hlevel, hformat⟩, hengine, hjournal⟩
  · rintro ⟨⟨hworkers, hentries, hlevel, hformat⟩, hengine, hjournal⟩
    exact ⟨⟨⟨hworkers, hentries⟩, hengine⟩, ⟨hlevel, hformat⟩, hjournal⟩

end

structure Agree (t t' : Toml.Table) : Prop where
  engine : ∀ key ∈ engineKeys, member? t "engine" key = member? t' "engine" key
  logging : ∀ key ∈ journalKeys, member? t "logging" key = member? t' "logging" key

theorem Agree.checkedConfig_eq {t t' : Toml.Table} (h : Agree t t') (e : Environment) :
    checkedConfig e t = checkedConfig e t' := by
  have hengine : ∀ key ∈ engineKeys, filed t "engine" key = filed t' "engine" key :=
    fun key hkey => congrArg _ (h.engine key hkey)
  have hlogging : ∀ key ∈ journalKeys, filed t "logging" key = filed t' "logging" key :=
    fun key hkey => congrArg _ (h.logging key hkey)
  have hfile : filePath? e t = filePath? e t' := by
    unfold filePath?
    rw [h.logging _ (by decide)]
  unfold checkedConfig checkedJournal mergedEngine mergedLevel mergedFormat mergedJournal mergedFile
  rw [hfile, hengine "max_workers" (by decide), hengine "cache_size" (by decide),
    hengine "thread_name_prefix" (by decide), hlogging "level" (by decide),
    hlogging "format" (by decide), hlogging "include_stderr" (by decide),
    hlogging "max_bytes" (by decide), hlogging "backup_count" (by decide)]

theorem Agree.merges {t t' : Toml.Table} {e : Environment} (h : Agree t t') (ht : Merges e t)
    (hengine : (section? t' "engine").isSome = true)
    (hlogging : (section? t' "logging").isSome = true) : Merges e t' := by
  refine ⟨hengine, hlogging, fun v hv => ?_, ht.variable_⟩
  rw [← h.logging _ (by decide)] at hv
  exact ht.file v hv

def JournalConfig.overridden (c : JournalConfig) (o : Overrides) : JournalConfig where
  level := o.level.getD c.level
  file := o.file.or c.file
  format := o.format.getD c.format
  includeStderr := o.includeStderr.getD c.includeStderr
  maxBytes := c.maxBytes
  backupCount := c.backupCount

/-- Over a valid configuration only what is overridden can be at fault. -/
theorem JournalConfig.override_eq_ok_iff {c c' : JournalConfig} (o : Overrides)
    (hlevel : lower c.level ∈ levels) (hformat : lower c.format ∈ formats) :
    c.override o = .ok c' ↔ ((∀ level ∈ o.level, lower level ∈ levels) ∧
      ∀ format ∈ o.format, lower format ∈ formats) ∧ c' = c.overridden o := by
  have hoverride : c.override o = (c.overridden o).check := by
    unfold override overridden
    cases o.file <;> rfl
  have hvalid : ∀ (given : Option String) (base : String) (allowed : List String),
      lower base ∈ allowed → (lower (given.getD base) ∈ allowed ↔
        ∀ word ∈ given, lower word ∈ allowed) := by
    intro given base allowed hbase
    cases given with
    | none => simpa using hbase
    | some word => simp
  rw [hoverride, JournalConfig.check_eq_ok_iff, ← hvalid o.level c.level levels hlevel,
    ← hvalid o.format c.format formats hformat]
  rfl

/-- What is at fault is a level or a format that is no known one. -/
theorem JournalConfig.override_fault {c : JournalConfig} {o : Overrides} {fault : SettingFault}
    (h : c.override o = .error fault) (hlevel : lower c.level ∈ levels)
    (hformat : lower c.format ∈ formats) :
    (∃ word ∈ o.level, lower word ∉ levels ∧ fault = .unknownLevel word) ∨
      ∃ word ∈ o.format, lower word ∉ formats ∧ fault = .unknownFormat word := by
  unfold override check at h
  rcases error_of_bind h with hchecked | ⟨_, -, h⟩
  · obtain ⟨hunknown, rfl⟩ := checkLevel_eq_error_iff.mp hchecked
    cases hword : o.level with
    | none =>
      rw [hword] at hunknown
      exact absurd hlevel hunknown
    | some word =>
      rw [hword] at hunknown
      exact .inl ⟨word, rfl, hunknown, rfl⟩
  rcases error_of_bind h with hchecked | ⟨_, -, h⟩
  · obtain ⟨hunknown, rfl⟩ := checkFormat_eq_error_iff.mp hchecked
    cases hword : o.format with
    | none =>
      rw [hword] at hunknown
      exact absurd hformat hunknown
    | some word =>
      rw [hword] at hunknown
      exact .inr ⟨word, rfl, hunknown, rfl⟩
  · cases h

/-- The fields of a configuration are their merged values, and it is made exactly if these are
allowed; of the file only the known members count. Unknown ones are told in one warning for each
section. What is overridden afterwards is checked, and nothing else changes. -/
theorem load_merges_layers (d : Disk) (e : Environment) (path : Option Path) (p : Path)
    (t : Toml.Table) (notes : List Entry) (hpath : chosenPath e path = .ok p)
    (hopened : Opened d p (.ok t) notes) (htable : Merges e t) (workers entries : Int)
    (level format : String)
    (hworkers : (mergedEngine e t).maxWorkers.rank? = some (.inl workers))
    (hentries : (mergedEngine e t).cacheSize.rank? = some (.inl entries))
    (hlevel : mergedLevel e t = .string level) (hformat : mergedFormat e t = .string format) :
    (∀ config, (load d e path).1 = .ok config ↔
      (1 ≤ workers ∧ 0 ≤ entries ∧ lower level ∈ levels ∧ lower format ∈ formats) ∧
      config = ⟨mergedEngine e t, mergedJournal e t level format⟩) ∧
    (load d e path).2 = notes ++ tableNotes e t ∧
    (∀ d' p' t' notes', Opened d' p' (.ok t') notes' → (section? t' "engine").isSome = true →
      (section? t' "logging").isSome = true → Agree t t' →
      (load d' e (some p')).1 = (load d e path).1) ∧
    (∀ config, (load d e path).1 = .ok config → ∀ o,
      (∀ journal, config.journal.override o = .ok journal ↔
        ((∀ word ∈ o.level, lower word ∈ levels) ∧ ∀ word ∈ o.format, lower word ∈ formats) ∧
        journal = config.journal.overridden o) ∧
      (∀ fault, config.journal.override o = .error fault →
        (∃ word ∈ o.level, lower word ∉ levels ∧ fault = .unknownLevel word) ∨
          ∃ word ∈ o.format, lower word ∉ formats ∧ fault = .unknownFormat word)) := by
  have hload := load_of_gives (loadConfig_merges hpath hopened htable)
  have hok : ∀ config, (load d e path).1 = .ok config ↔
      (1 ≤ workers ∧ 0 ≤ entries ∧ lower level ∈ levels ∧ lower format ∈ formats) ∧
      config = ⟨mergedEngine e t, mergedJournal e t level format⟩ := by
    intro config
    rw [hload]
    exact checkedConfig_eq_ok_iff hworkers hentries hlevel hformat
  refine ⟨hok, by rw [hload], ?_, ?_⟩
  · intro d' p' t' notes' hopened' hengine' hlogging' hagree
    have htable' := hagree.merges htable hengine' hlogging'
    rw [load_of_gives (loadConfig_merges rfl hopened' htable'), hload]
    exact (hagree.checkedConfig_eq e).symm
  · intro config hconfig o
    obtain ⟨⟨-, -, hvalid, hvalid'⟩, rfl⟩ := (hok config).mp hconfig
    exact ⟨fun journal => JournalConfig.override_eq_ok_iff o hvalid hvalid',
      fun fault hfault => JournalConfig.override_fault hfault hvalid hvalid'⟩

def layeredText : Text :=
  "[engine]\nmax_workers = 0\nzeta = 1\n[logging]\nfile = \"~/x\"\n".toList

@[irreducible] def layeredTable : Toml.Table := (Toml.read layeredText).toOption.getD []

def layeredEnvironment : Environment := ⟨[("CONDEXPR_MAX_WORKERS", " 3 ")], ⟨⟨"/", ["home"]⟩, fun _ => none⟩⟩

def layeredBytes : List Nat := layeredText.map Char.toNat

theorem layered_decoded : Text.decodeUtf8 layeredBytes = .ok layeredText :=
  ok_of_toOption (by decide +kernel)

theorem layered_read : Toml.read layeredText = .ok layeredTable := by
  have hread : (Toml.read layeredText).toOption.isSome = true := by decide +kernel
  unfold layeredTable
  obtain ⟨t, ht⟩ := Option.isSome_iff_exists.mp hread
  rw [ok_of_toOption ht]
  rfl

/-- What the table says; a level and a format it does not have. -/
theorem layered_table : (section? layeredTable "engine").isSome = true ∧
    (section? layeredTable "logging").isSome = true ∧
    (∀ key ∈ ["level", "format"], (member? layeredTable "logging" key).isNone = true) ∧
    filePath? layeredEnvironment layeredTable = some ⟨"/", ["home", "x"]⟩ ∧
    (mergedEngine layeredEnvironment layeredTable).cacheSize.rank? = some (.inl 0) := by
  decide +kernel

theorem load_merges_three_workers :
    ∃ config, (load (diskWith "c.toml" layeredBytes) layeredEnvironment
      (some ⟨"", ["c.toml"]⟩)).1 = .ok config ∧ config.engine.maxWorkers = .int 3 ∧
        config.journal.file = some ⟨"/", ["home", "x"]⟩ := by
  obtain ⟨hengine, hlogging, habsent, hfile, hentries⟩ := layered_table
  have hmerges : Merges layeredEnvironment layeredTable :=
    ⟨hengine, hlogging, locatable_of_filePath? hfile, none, rfl⟩
  have hlevel : mergedLevel layeredEnvironment layeredTable = .string "info" := by
    unfold mergedLevel filed
    rw [Option.isNone_iff_eq_none.mp (habsent "level" (by decide))]
    rfl
  have hformat : mergedFormat layeredEnvironment layeredTable = .string "text" := by
    unfold mergedFormat filed
    rw [Option.isNone_iff_eq_none.mp (habsent "format" (by decide))]
    rfl
  obtain ⟨h, -⟩ := load_merges_layers (diskWith "c.toml" layeredBytes) layeredEnvironment
    (some ⟨"", ["c.toml"]⟩) ⟨"", ["c.toml"]⟩ layeredTable [] rfl
    (.table rfl rfl layered_decoded layered_read) hmerges 3 0 "info" "text" rfl hentries
    hlevel hformat
  exact ⟨_, (h _).mpr ⟨⟨by decide, by decide, by decide, by decide⟩, rfl⟩, rfl, hfile⟩

end Conditions.Settings
