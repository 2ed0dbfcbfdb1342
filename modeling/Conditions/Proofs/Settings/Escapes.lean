import Conditions.Proofs.Settings.Layers

/-!
# Faults that are not told as those of the configuration

Every stage of loading may fail, and only some of its faults are told as faults of the
configuration. The others leave loading as they are.
-/

set_option autoImplicit false

namespace Conditions.Settings
open Files (Path Disk HomeFault)
open Journal (Entry)
open Loading

inductive Loaded (d : Disk) (e : Environment) (path : Option Path) :
    Except LoadFault Config → Prop where
  | noPlace {fault : HomeFault} (chosen : chosenPath e path = .error fault) :
      Loaded d e path (.error (.home fault))
  | noTable {p : Path} {fault : LoadFault} {notes : List Entry} (chosen : chosenPath e path = .ok p)
      (opened : Opened d p (.error fault) notes) : Loaded d e path (.error fault)
  | noEngine {p : Path} {t : Toml.Table} {notes : List Entry} (chosen : chosenPath e path = .ok p)
      (opened : Opened d p (.ok t) notes) (engine : section? t "engine" = none) :
      Loaded d e path (.error (.notTable "engine"))
  | noLogging {p : Path} {t : Toml.Table} {notes : List Entry} (chosen : chosenPath e path = .ok p)
      (opened : Opened d p (.ok t) notes) (engine : (section? t "engine").isSome = true)
      (logging : section? t "logging" = none) : Loaded d e path (.error (.notTable "logging"))
  | fileKind {p : Path} {t : Toml.Table} {notes : List Entry} {v : Toml.Value}
      (chosen : chosenPath e path = .ok p) (opened : Opened d p (.ok t) notes)
      (engine : (section? t "engine").isSome = true) (logging : (section? t "logging").isSome = true)
      (file : member? t "logging" "file" = some v) (kind : ∀ s, v ≠ .string s) :
      Loaded d e path (.error (.notPath (Setting.value v).kind))
  | fileHome {p : Path} {t : Toml.Table} {notes : List Entry} {s : String} {fault : HomeFault}
      (chosen : chosenPath e path = .ok p) (opened : Opened d p (.ok t) notes)
      (engine : (section? t "engine").isSome = true) (logging : (section? t "logging").isSome = true)
      (file : member? t "logging" "file" = some (.string s))
      (home : (Path.read s).expandHome e.homes = .error fault) :
      Loaded d e path (.error (.home fault))
  | variableHome {p : Path} {t : Toml.Table} {notes : List Entry} {fault : HomeFault}
      (chosen : chosenPath e path = .ok p) (opened : Opened d p (.ok t) notes)
      (engine : (section? t "engine").isSome = true) (logging : (section? t "logging").isSome = true)
      (file : Locatable e t) (variable_ : e.path? "CONDEXPR_LOG_FILE" = .error fault) :
      Loaded d e path (.error (.home fault))
  | merged {p : Path} {t : Toml.Table} {notes : List Entry} (chosen : chosenPath e path = .ok p)
      (opened : Opened d p (.ok t) notes) (merges : Merges e t) :
      Loaded d e path (checkedConfig e t)

section
variable {d : Disk} {e : Environment} {path : Option Path} {p : Path} {t : Toml.Table}

theorem loaded_total (d : Disk) (e : Environment) (path : Option Path) :
    ∃ answer, Loaded d e path answer := by
  cases hchosen : chosenPath e path with
  | error fault => exact ⟨_, .noPlace hchosen⟩
  | ok p =>
  obtain ⟨answer, notes, hopened⟩ := opened_total d p
  cases answer with
  | error fault => exact ⟨_, .noTable hchosen hopened⟩
  | ok t =>
  cases hengine : section? t "engine" with
  | none => exact ⟨_, .noEngine hchosen hopened hengine⟩
  | some members =>
  have hengine' := Option.isSome_iff_exists.mpr ⟨members, hengine⟩
  cases hlogging : section? t "logging" with
  | none => exact ⟨_, .noLogging hchosen hopened hengine' hlogging⟩
  | some members' =>
  have hlogging' := Option.isSome_iff_exists.mpr ⟨members', hlogging⟩
  by_cases hfile : Locatable e t
  · cases hvariable : e.path? "CONDEXPR_LOG_FILE" with
    | error fault => exact ⟨_, .variableHome hchosen hopened hengine' hlogging' hfile hvariable⟩
    | ok file => exact ⟨_, .merged hchosen hopened ⟨hengine', hlogging', hfile, file, hvariable⟩⟩
  · simp only [Locatable, Classical.not_forall, not_exists, not_and] at hfile
    obtain ⟨v, hmember, hv⟩ := hfile
    by_cases hstring : ∃ s, v = .string s
    · obtain ⟨s, rfl⟩ := hstring
      cases hhome : (Path.read s).expandHome e.homes with
      | ok p => exact absurd hhome (hv s p rfl)
      | error fault => exact ⟨_, .fileHome hchosen hopened hengine' hlogging' hmember hhome⟩
    · exact ⟨_, .fileKind hchosen hopened hengine' hlogging' hmember fun s hs => hstring ⟨s, hs⟩⟩

/-- A log file that stops loading, behind sections that do not. -/
theorem loadConfig_resolveFile {notes : List Entry} {v : Toml.Value} {fault : LoadFault}
    (hchosen : chosenPath e path = .ok p) (hopened : Opened d p (.ok t) notes)
    (hengine : (section? t "engine").isSome = true) (hlogging : (section? t "logging").isSome = true)
    (hmember : member? t "logging" "file" = some v)
    (hfile : ∀ f : Fields, f.find? "file" = some (.value v) →
      Gives (resolveFile e.homes f) (.error fault) []) :
    ∃ notes', Gives (loadConfig d e path) (.error fault) notes' := by
  obtain ⟨members, hmembers⟩ := Option.isSome_iff_exists.mp hengine
  obtain ⟨members', hmembers'⟩ := Option.isSome_iff_exists.mp hlogging
  have hfound : (knownFields members' journalKeys).find? "file" = some (.value v) := by
    rw [find?_journal hmembers' (by decide), filed, hmember]
    rfl
  rw [loadConfig_chosen hchosen]
  exact ⟨_, (Gives.pure p).bind (hopened.gives.bind ((loadSection_gives hmembers _).bind
    ((loadSection_gives hmembers' _).bind (hfile _ hfound).stop)))⟩

theorem Loaded.gives {answer : Except LoadFault Config} (h : Loaded d e path answer) :
    ∃ notes, Gives (loadConfig d e path) answer notes := by
  cases h with
  | noPlace chosen =>
    cases path with
    | some p => cases chosen
    | none =>
      change configPath e = _ at chosen
      unfold loadConfig
      simp only [chosen]
      exact ⟨_, (Gives.throw _).stop⟩
  | noTable chosen opened =>
    rw [loadConfig_chosen chosen]
    exact ⟨_, (Gives.pure _).bind opened.gives.stop⟩
  | noEngine chosen opened engine =>
    rw [loadConfig_chosen chosen]
    exact ⟨_, (Gives.pure _).bind (opened.gives.bind (loadSection_notTable engine _).stop)⟩
  | noLogging chosen opened engine logging =>
    obtain ⟨members, hmembers⟩ := Option.isSome_iff_exists.mp engine
    rw [loadConfig_chosen chosen]
    exact ⟨_, (Gives.pure _).bind (opened.gives.bind ((loadSection_gives hmembers _).bind
      (loadSection_notTable logging _).stop))⟩
  | fileKind chosen opened engine logging file kind =>
    refine loadConfig_resolveFile chosen opened engine logging file fun f hf => ?_
    refine resolveFile_notPath hf fun s hs => ?_
    cases hs
    exact kind s rfl
  | fileHome chosen opened engine logging file home =>
    exact loadConfig_resolveFile chosen opened engine logging file
      fun f hf => resolveFile_home hf home
  | variableHome chosen opened engine logging file variable_ =>
    obtain ⟨members, hmembers⟩ := Option.isSome_iff_exists.mp engine
    obtain ⟨members', hmembers'⟩ := Option.isSome_iff_exists.mp logging
    obtain ⟨f, hgives, -⟩ := resolveFile_resolved hmembers' file
    rw [loadConfig_chosen chosen]
    exact ⟨_, (Gives.pure _).bind (opened.gives.bind ((loadSection_gives hmembers _).bind
      ((loadSection_gives hmembers' _).bind (hgives.bind ((engineVariables_gives e).bind
        (journalVariables_home variable_).stop)))))⟩
  | merged chosen opened merges => exact ⟨_, loadConfig_merges chosen opened merges⟩

theorem load_eq_iff {answer : Except LoadFault Config} :
    (load d e path).1 = answer ↔ Loaded d e path answer := by
  have hload : ∀ {answer}, Loaded d e path answer → (load d e path).1 = answer := by
    intro answer h
    obtain ⟨notes, hgives⟩ := h.gives
    exact congrArg Prod.fst (load_of_gives hgives)
  constructor
  · rintro rfl
    obtain ⟨answer, h⟩ := loaded_total d e path
    rwa [hload h]
  · exact hload

end

theorem requireText_eq_error_iff {s : Setting} {fault : SettingFault} :
    requireText s = .error fault ↔ (∀ word, s ≠ .string word) ∧ fault = .notText s.kind := by
  by_cases hs : ∃ word, s = .string word
  · obtain ⟨word, rfl⟩ := hs
    simp [requireText, Setting.string]
  · have hs' : ∀ word, s ≠ .string word := fun word h => hs ⟨word, h⟩
    have herror : requireText s = .error (.notText s.kind) := by
      unfold requireText
      split
      · exact absurd rfl (hs' _)
      · rfl
    rw [herror, Except.error.injEq]
    exact ⟨fun h => ⟨hs', h.symm⟩, fun h => h.2.symm⟩

theorem requireText_eq_ok_iff {s : Setting} {word : String} :
    requireText s = .ok word ↔ s = .string word := by
  unfold requireText Setting.string
  split <;> simp_all

/-- What is wrong with the numbers of the evaluator is told as a fault of the configuration. -/
theorem EngineConfig.check_reported {c : EngineConfig} {fault : SettingFault}
    (h : c.check = .error fault) : (reportFault fault).isReported = true := by
  have hbelow : ∀ {s : Setting} {bound : Int} {fault : SettingFault},
      requireBelow s bound = .error fault → (reportFault fault).isReported = true := by
    intro s bound fault h
    unfold requireBelow at h
    split at h <;> cases h
    rfl
  unfold check at h
  rcases error_of_bind h with hworkers | ⟨few, -, h⟩
  · exact hbelow hworkers
  cases few with
  | true =>
    cases h
    rfl
  | false =>
  rcases error_of_bind h with hentries | ⟨negative, -, h⟩
  · exact hbelow hentries
  cases negative <;> cases h
  rfl

section
open JournalConfig
variable {e : Environment} {t : Toml.Table}

inductive Wordless (e : Environment) (t : Toml.Table) : String → Prop where
  | level (level : ∀ word, mergedLevel e t ≠ .string word) : Wordless e t (mergedLevel e t).kind
  | format {word : String} (level : mergedLevel e t = .string word) (known : lower word ∈ levels)
      (format : ∀ word, mergedFormat e t ≠ .string word) : Wordless e t (mergedFormat e t).kind

inductive Checked (e : Environment) (t : Toml.Table) : Except SettingFault JournalConfig → Prop where
  | wordless {kind : String} (wordless : Wordless e t kind) : Checked e t (.error (.notText kind))
  | level {word : String} (level : mergedLevel e t = .string word) (unknown : lower word ∉ levels) :
      Checked e t (.error (.unknownLevel word))
  | format {word word' : String} (level : mergedLevel e t = .string word)
      (known : lower word ∈ levels) (format : mergedFormat e t = .string word')
      (unknown : lower word' ∉ formats) : Checked e t (.error (.unknownFormat word'))
  | valid {level format : String} (known : lower level ∈ levels) (known' : lower format ∈ formats) :
      Checked e t (.ok (mergedJournal e t level format))

theorem checked_of_eq {answer : Except SettingFault JournalConfig}
    (h : checkedJournal e t = answer) : Checked e t answer := by
  cases answer with
  | ok journal =>
    obtain ⟨level, -, h⟩ := ok_of_bind h
    obtain ⟨_, hlevel, h⟩ := ok_of_bind h
    obtain ⟨format, -, h⟩ := ok_of_bind h
    obtain ⟨_, hformat, h⟩ := ok_of_bind h
    cases h
    exact .valid (checkLevel_eq_ok_iff.mp hlevel) (checkFormat_eq_ok_iff.mp hformat)
  | error fault =>
    rcases error_of_bind h with htext | ⟨level, htext, h⟩
    · obtain ⟨hlevel, rfl⟩ := requireText_eq_error_iff.mp htext
      exact .wordless (.level hlevel)
    have hlevel := requireText_eq_ok_iff.mp htext
    rcases error_of_bind h with hcheck | ⟨_, hcheck, h⟩
    · obtain ⟨hunknown, rfl⟩ := checkLevel_eq_error_iff.mp hcheck
      exact .level hlevel hunknown
    have hknown := checkLevel_eq_ok_iff.mp hcheck
    rcases error_of_bind h with htext' | ⟨format, htext', h⟩
    · obtain ⟨hformat, rfl⟩ := requireText_eq_error_iff.mp htext'
      exact .wordless (.format hlevel hknown hformat)
    have hformat := requireText_eq_ok_iff.mp htext'
    rcases error_of_bind h with hcheck' | ⟨_, -, h⟩
    · obtain ⟨hunknown, rfl⟩ := checkFormat_eq_error_iff.mp hcheck'
      exact .format hlevel hknown hformat hunknown
    cases h

theorem Wordless.checkedJournal_eq {kind : String} (h : Wordless e t kind) :
    checkedJournal e t = .error (.notText kind) := by
  unfold checkedJournal
  cases h with
  | level level =>
    rw [requireText_eq_error_iff.mpr ⟨level, rfl⟩]
    rfl
  | format level known format =>
    rw [requireText_eq_ok_iff.mpr level, requireText_eq_error_iff.mpr ⟨format, rfl⟩]
    change (checkLevel _ >>= _) = _
    rw [checkLevel_eq_ok_iff.mpr known]
    rfl

theorem checkedJournal_valid {journal : JournalConfig} (h : checkedJournal e t = .ok journal) :
    lower journal.level ∈ levels ∧ lower journal.format ∈ formats := by
  cases checked_of_eq h with
  | valid known known' => exact ⟨known, known'⟩

theorem checkedJournal_escapes_iff {fault : SettingFault} :
    checkedJournal e t = .error fault ∧ (reportFault fault).isReported = false ↔
      ∃ kind, Wordless e t kind ∧ fault = .notText kind := by
  constructor
  · rintro ⟨h, hreported⟩
    cases checked_of_eq h with
    | wordless wordless => exact ⟨_, wordless, rfl⟩
    | level | format => cases hreported
  · rintro ⟨kind, hkind, rfl⟩
    exact ⟨hkind.checkedJournal_eq, rfl⟩

theorem checkedConfig_escapes_iff {fault : LoadFault} :
    checkedConfig e t = .error fault ∧ fault.isReported = false ↔
      (∃ c, (mergedEngine e t).check = .ok c) ∧
        ∃ kind, Wordless e t kind ∧ fault = .notText kind := by
  unfold checkedConfig
  cases hengine : (mergedEngine e t).check with
  | error fault' =>
    constructor
    · rintro ⟨⟨⟩, hreported⟩
      rw [EngineConfig.check_reported hengine] at hreported
      cases hreported
    · rintro ⟨⟨c, ⟨⟩⟩, -⟩
  | ok c =>
    constructor
    · rintro ⟨h, hreported⟩
      cases hjournal : checkedJournal e t with
      | ok journal =>
        rw [hjournal] at h
        cases h
      | error fault' =>
        rw [hjournal] at h
        cases h
        obtain ⟨kind, hkind, rfl⟩ := checkedJournal_escapes_iff.mp ⟨hjournal, hreported⟩
        exact ⟨⟨c, rfl⟩, kind, hkind, rfl⟩
    · rintro ⟨-, kind, hkind, rfl⟩
      rw [(checkedJournal_escapes_iff.mpr ⟨kind, hkind, rfl⟩).1]
      exact ⟨rfl, rfl⟩

end

inductive Baffling (d : Disk) (p : Path) : LoadFault → Prop where
  | place {fault : Files.Fault} (unknown : d.lookUp p = .error fault) :
      Baffling d p (.unknown fault)
  | bytes {bytes : List Nat} {fault : Text.Utf8Fault} (read : d.read p = .ok bytes)
      (decoded : Text.decodeUtf8 bytes = .error fault) : Baffling d p (.undecodable fault)
  | digits {bytes : List Nat} {text : Text} {count : Nat} (read : d.read p = .ok bytes)
      (decoded : Text.decodeUtf8 bytes = .ok text)
      (parsed : Toml.read text = .error (.tooManyDigits count)) :
      Baffling d p (.tooManyDigits count)

inductive Unfit (e : Environment) (t : Toml.Table) : LoadFault → Prop where
  | fileKind {v : Toml.Value} (file : member? t "logging" "file" = some v)
      (kind : ∀ s, v ≠ .string s) : Unfit e t (.notPath (Setting.value v).kind)
  | fileHome {s : String} {fault : HomeFault}
      (file : member? t "logging" "file" = some (.string s))
      (home : (Path.read s).expandHome e.homes = .error fault) : Unfit e t (.home fault)
  | variableHome {s : String} {fault : HomeFault} (file : Locatable e t)
      (given : e.text? "CONDEXPR_LOG_FILE" = some s)
      (home : (Path.read s).expandHome e.homes = .error fault) : Unfit e t (.home fault)
  | word {kind : String} (merges : Merges e t) (engine : ∃ c, (mergedEngine e t).check = .ok c)
      (wordless : Wordless e t kind) : Unfit e t (.notText kind)

inductive Escapes (d : Disk) (e : Environment) (path : Option Path) : LoadFault → Prop where
  | path {s : String} {fault : HomeFault} (unnamed : path = none)
      (given : e.text? "CONDEXPR_CONFIG_PATH" = some s)
      (home : (Path.read s).expandHome e.homes = .error fault) : Escapes d e path (.home fault)
  | file {p : Path} {fault : LoadFault} (chosen : chosenPath e path = .ok p)
      (baffling : Baffling d p fault) : Escapes d e path fault
  | value {p : Path} {t : Toml.Table} {notes : List Entry} {fault : LoadFault}
      (chosen : chosenPath e path = .ok p) (opened : Opened d p (.ok t) notes)
      (engine : (section? t "engine").isSome = true) (logging : (section? t "logging").isSome = true)
      (unfit : Unfit e t fault) : Escapes d e path fault

section
variable {d : Disk} {e : Environment} {path : Option Path} {p : Path}

theorem path?_eq_error_iff {name : String} {fault : HomeFault} :
    e.path? name = .error fault ↔
      ∃ s, e.text? name = some s ∧ (Path.read s).expandHome e.homes = .error fault := by
  unfold Environment.path?
  cases e.text? name with
  | none => simp
  | some s => cases hhome : (Path.read s).expandHome e.homes <;> simp [hhome, Except.map]

theorem chosenPath_eq_error_iff {fault : HomeFault} :
    chosenPath e path = .error fault ↔
      path = none ∧ ∃ s, e.text? "CONDEXPR_CONFIG_PATH" = some s ∧
        (Path.read s).expandHome e.homes = .error fault := by
  rw [← path?_eq_error_iff]
  cases path with
  | some p => simp [chosenPath]
  | none =>
    unfold chosenPath configPath
    cases e.path? "CONDEXPR_CONFIG_PATH" <;> simp [Except.map]

theorem lookUp_of_read {bytes : List Nat} (h : d.read p = .ok bytes) :
    d.lookUp p = .ok (some (.file bytes)) := by
  obtain ⟨place, hplace, h⟩ := ok_of_bind h
  have hfind : d.find p = .ok (.file bytes) := by
    unfold Disk.find
    rw [hplace]
    cases hnode : d.node? place with
    | none =>
      rw [hnode] at h
      cases h
    | some node =>
      rw [hnode] at h
      dsimp only at h
      split at h
      · cases h
      · cases node with
        | file bytes' =>
          cases h
          simp only [bind, Except.bind, hnode]
          rfl
        | directory => cases h
  unfold Disk.lookUp
  rw [hfind]

theorem opened_baffling_iff {fault : LoadFault} :
    (∃ notes, Opened d p (.error fault) notes) ∧ fault.isReported = false ↔ Baffling d p fault := by
  constructor
  · rintro ⟨⟨notes, hopened⟩, hreported⟩
    cases hopened with
    | unknown unknown => exact .place unknown
    | unreadable => cases hreported
    | undecodable found read decoded => exact .bytes read decoded
    | invalid => cases hreported
    | digits found read decoded parsed => exact .digits read decoded parsed
  · intro h
    cases h with
    | place unknown => exact ⟨⟨_, .unknown unknown⟩, rfl⟩
    | bytes read decoded => exact ⟨⟨_, .undecodable (lookUp_of_read read) read decoded⟩, rfl⟩
    | digits read decoded parsed =>
      exact ⟨⟨_, .digits (lookUp_of_read read) read decoded parsed⟩, rfl⟩

end

/-- A configuration that has been loaded has a level and a format that are known. -/
theorem load_ok_valid {d : Disk} {e : Environment} {path : Option Path} {config : Config}
    (h : (load d e path).1 = .ok config) :
    lower config.journal.level ∈ levels ∧ lower config.journal.format ∈ formats := by
  rw [load_eq_iff] at h
  generalize hanswer : (Except.ok config : Except LoadFault Config) = answer at h
  cases h with
  | @merged p t notes chosen opened merges =>
    have hjournal := (checkedConfig_parts.mp hanswer.symm).2
    exact checkedJournal_valid hjournal
  | _ => cases hanswer

theorem load_fault_escapes_iff (d : Disk) (e : Environment) (path : Option Path)
    (fault : LoadFault) :
    (load d e path).1 = .error fault ∧ fault.isReported = false ↔ Escapes d e path fault := by
  rw [load_eq_iff]
  constructor
  · rintro ⟨hloaded, hreported⟩
    generalize hanswer : (Except.error fault : Except LoadFault Config) = answer at hloaded
    cases hloaded with
    | noPlace chosen =>
      cases hanswer
      obtain ⟨hunnamed, s, hgiven, hhome⟩ := chosenPath_eq_error_iff.mp chosen
      exact .path hunnamed hgiven hhome
    | noTable chosen opened =>
      cases hanswer
      exact .file chosen (opened_baffling_iff.mp ⟨⟨_, opened⟩, hreported⟩)
    | noEngine | noLogging =>
      cases hanswer
      cases hreported
    | fileKind chosen opened engine logging file kind =>
      cases hanswer
      exact .value chosen opened engine logging (.fileKind file kind)
    | fileHome chosen opened engine logging file home =>
      cases hanswer
      exact .value chosen opened engine logging (.fileHome file home)
    | variableHome chosen opened engine logging file variable_ =>
      cases hanswer
      obtain ⟨s, hgiven, hhome⟩ := path?_eq_error_iff.mp variable_
      exact .value chosen opened engine logging (.variableHome file hgiven hhome)
    | merged chosen opened merges =>
      obtain ⟨hengine, kind, hwordless, rfl⟩ :=
        checkedConfig_escapes_iff.mp ⟨hanswer.symm, hreported⟩
      exact .value chosen opened merges.engine merges.logging (.word merges hengine hwordless)
  · intro h
    cases h with
    | path unnamed given home =>
      exact ⟨.noPlace (chosenPath_eq_error_iff.mpr ⟨unnamed, _, given, home⟩), rfl⟩
    | file chosen baffling =>
      obtain ⟨⟨notes, hopened⟩, hreported⟩ := opened_baffling_iff.mpr baffling
      exact ⟨.noTable chosen hopened, hreported⟩
    | value chosen opened engine logging unfit =>
      cases unfit with
      | fileKind file kind => exact ⟨.fileKind chosen opened engine logging file kind, rfl⟩
      | fileHome file home => exact ⟨.fileHome chosen opened engine logging file home, rfl⟩
      | variableHome file given home =>
        exact ⟨.variableHome chosen opened engine logging file
          (path?_eq_error_iff.mpr ⟨_, given, home⟩), rfl⟩
      | word merges hengine wordless =>
        obtain ⟨herror, hreported⟩ :=
          checkedConfig_escapes_iff.mpr ⟨hengine, _, wordless, rfl⟩
        rw [← herror]
        exact ⟨.merged chosen opened merges, hreported⟩

/-- Loading gives a configuration or a fault that is told as one of the configuration, unless one of
the others escapes; and it escapes in exactly those ways. -/
theorem load_ok_or_reported_iff (d : Disk) (e : Environment) (path : Option Path) :
    (((∃ config, (load d e path).1 = .ok config) ∨
        ∃ fault, (load d e path).1 = .error fault ∧ fault.isReported = true) ↔
      ∀ fault, ¬ Escapes d e path fault) ∧
    ∀ fault, (load d e path).1 = .error fault ∧ fault.isReported = false ↔
      Escapes d e path fault := by
  refine ⟨?_, load_fault_escapes_iff d e path⟩
  constructor
  · rintro (⟨config, hok⟩ | ⟨fault', herror, hreported⟩) fault hescapes
    · obtain ⟨hfault, -⟩ := (load_fault_escapes_iff d e path fault).mpr hescapes
      rw [hok] at hfault
      cases hfault
    · obtain ⟨hfault, hunreported⟩ := (load_fault_escapes_iff d e path fault).mpr hescapes
      rw [herror] at hfault
      cases hfault
      rw [hreported] at hunreported
      cases hunreported
  · intro hnone
    cases hload : (load d e path).1 with
    | ok config => exact .inl ⟨config, rfl⟩
    | error fault =>
      cases hreported : fault.isReported with
      | true => exact .inr ⟨fault, rfl, hreported⟩
      | false =>
        exact absurd ((load_fault_escapes_iff d e path fault).mp ⟨hload, hreported⟩) (hnone fault)

/-- A file of one byte that starts no character. -/
theorem load_undecodable_byte :
    ∃ fault, (load (diskWith "config.toml" [0xff]) ⟨[], ⟨⟨"/", ["home", "oracle"]⟩, fun _ => none⟩⟩
      (some ⟨"", ["config.toml"]⟩)).1 = .error fault ∧ fault.isReported = false := by
  refine ⟨.undecodable ⟨.startByte, 0, 1, 0xff⟩, ?_, rfl⟩
  exact load_eq_iff.mpr (.noTable rfl (.undecodable rfl rfl rfl))

end Conditions.Settings
