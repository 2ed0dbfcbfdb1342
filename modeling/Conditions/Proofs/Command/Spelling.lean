import Conditions.Proofs.Command.ExitStatus
import Conditions.Proofs.Placeholder.Convergence

/-!
# Spellings of a placeholder

Options come after the file of conditions, and a later value for a key replaces an earlier one. But
keys that differ in case only are different keys until they are registered, and they are registered
in the order in which their spellings first came up. A reference therefore takes the value of its
newest spelling, which need not be the one that was given a value last.
-/

set_option autoImplicit false

namespace Conditions.Command
open Files (Disk)
open Placeholder

def newestSpelling? (key : Text) (mentioned : List Text) : Option Text :=
  mentioned.eraseDups.reverse.find? fun w => Text.lower w == Text.lower key

/-- What a request says of placeholders: the mapping in its file of conditions, if it has a file,
and its assignments one by one. -/
inductive Says (read : Reader) (d : Disk) : Request → Dictionary Text Text → List (Text × Text) → Prop where
  | line {expression : Text} {m : Manner} {options : List (Text × Text)}
      (assigned : m.assignments.mapM assignment? = some options) :
      Says read d (.evaluate expression m) [] options
  | lines {p : Files.Path} {m : Manner} {file : ConditionsFile} {options : List (Text × Text)}
      (loaded : ConditionsFile.load read d p = .ok file)
      (assigned : m.assignments.mapM assignment? = some options) :
      Says read d (.check p m) file.placeholders options

theorem placeholdersOf_nodup {v : Content} {placeholders : Dictionary Text Text}
    (h : ConditionsFile.placeholdersOf v = .ok placeholders) :
    (Dictionary.keys placeholders).Nodup := by
  unfold ConditionsFile.placeholdersOf at h
  split at h
  · rename_i entries shown
    generalize (List.mapM _ entries : Except Raised (List (Text × Text))) = texts at h
    cases texts with
    | ok pairs =>
      cases h
      exact Dictionary.nodup_keys_ofList pairs
    | error r => cases h
  · split at h <;> cases h
    exact List.nodup_nil

theorem ofContent_nodup {v : Content} {file : ConditionsFile}
    (h : ConditionsFile.ofContent v = .ok file) : (Dictionary.keys file.placeholders).Nodup := by
  unfold ConditionsFile.ofContent at h
  split at h
  · obtain ⟨placeholders, hplaceholders, h⟩ := ok_of_bind h
    obtain ⟨lines, -, h⟩ := ok_of_bind h
    cases h
    exact placeholdersOf_nodup hplaceholders
  · obtain ⟨lines, -, h⟩ := ok_of_bind h
    cases h
    exact List.nodup_nil

theorem load_nodup {read : Reader} {d : Disk} {p : Files.Path} {file : ConditionsFile}
    (h : ConditionsFile.load read d p = .ok file) : (Dictionary.keys file.placeholders).Nodup := by
  unfold ConditionsFile.load at h
  obtain ⟨bytes, -, h⟩ := ok_of_bind h
  obtain ⟨t, -, h⟩ := ok_of_bind h
  unfold ConditionsFile.ofText at h
  split at h
  · exact ofContent_nodup h
  · cases h
  · cases h

/-- The values of a request are those of its file and then of its options. -/
theorem Says.poses {read : Reader} {d : Disk} {request : Request}
    {given options : Dictionary Text Text} (h : Says read d request given options) :
    ∃ lines, Poses read d request (Dictionary.ofList (given ++ options)) lines := by
  cases h with
  | @line expression m _ assigned =>
    have hassigned : assigned? m.assignments = some (Dictionary.ofList options) :=
      Option.map_eq_some_iff.mpr ⟨options, assigned, rfl⟩
    exact ⟨_, .line hassigned⟩
  | @lines p m file _ loaded assigned =>
    have hassigned : assigned? m.assignments = some (Dictionary.ofList options) :=
      Option.map_eq_some_iff.mpr ⟨options, assigned, rfl⟩
    have hposes := Poses.lines loaded hassigned
    have hvalues : Dictionary.insertAll file.placeholders (Dictionary.ofList options) =
        Dictionary.ofList (file.placeholders ++ options) := by
      rw [Dictionary.insertAll_ofList, Dictionary.ofList_append,
        Dictionary.ofList_of_nodup (load_nodup loaded)]
    rw [hvalues] at hposes
    exact ⟨_, hposes⟩

section
variable {α : Type} {entries : List (Text × Text)} {key w v : Text}

def fixedOf (values : Dictionary Text Text) : Registry Who Unit :=
  Registry.ofList (values.map fun e => (e.1, .fixed e.2))

/-- Among handlers, the last one whose key has the same letters answers. -/
theorem find?_fixedOf (values : Dictionary Text Text) (key : Text) :
    Dictionary.find? (fixedOf values) (Text.lower key) =
      (values.reverse.find? fun e => Text.lower e.1 == Text.lower key).map fun e => .fixed e.2 := by
  rw [fixedOf, Registry.find?_ofList, List.map_map, ← List.map_reverse]
  induction values.reverse with
  | nil => rfl
  | cons e rest ih =>
    rw [List.map_cons, List.find?_cons, Function.comp_apply, Dictionary.find?_cons, ih,
      BEq.comm (a := Text.lower key)]
    cases Text.lower e.1 == Text.lower key <;> rfl

/-- The last entry for a key, in whatever case, is the last one for its own spelling. -/
theorem find?_spelling
    (h : entries.find? (fun e => Text.lower e.1 == Text.lower key) = some (w, v)) :
    Dictionary.find? entries w = some v := by
  induction entries with
  | nil => cases h
  | cons e rest ih =>
    rw [List.find?_cons] at h
    rw [Dictionary.find?_cons]
    split at h
    · cases h
      rw [if_pos (beq_self_eq_true w)]
    · rename_i hother
      have hw : Text.lower w = Text.lower key := by simpa using List.find?_some h
      have hne : w ≠ e.1 := by
        rintro rfl
        rw [hw, beq_self_eq_true] at hother
        cases hother
      rw [if_neg (by simpa using hne), ih h]

/-- Of merged entries the newest spelling answers, with the value that it was given last. -/
theorem find?_merged (h : newestSpelling? key (Dictionary.keys entries) = some w) :
    ∃ v, Dictionary.find? entries.reverse w = some v ∧
      Dictionary.find? (fixedOf (Dictionary.ofList entries)) (Text.lower key) =
        some (.fixed v) := by
  -- keys stand where they first come up, so the last of them in these letters is the newest
  have hkeys : (Dictionary.ofList entries).reverse.map Prod.fst =
      (Dictionary.keys entries).eraseDups.reverse := by
    rw [List.map_reverse, ← Dictionary.keys_ofList]
    rfl
  rw [newestSpelling?, ← hkeys, List.find?_map, Option.map_eq_some_iff] at h
  obtain ⟨⟨w, v⟩, hfound, rfl⟩ := h
  refine ⟨v, ?_, ?_⟩
  · have hmem := List.mem_reverse.mp (List.mem_of_find?_eq_some hfound)
    have hvalue := Dictionary.find?_of_mem (Dictionary.nodup_keys_ofList entries) hmem
    have hall : Dictionary.ofList entries = Dictionary.insertAll [] entries := rfl
    rwa [hall, Dictionary.find?_insertAll, Dictionary.find?_nil, Option.or_none] at hvalue
  · rw [find?_fixedOf]
    exact congrArg (Option.map _) hfound

theorem newestSpelling?_isSome (hw : w ∈ Dictionary.keys entries)
    (h : Text.lower w = Text.lower key) :
    ∃ w', newestSpelling? key (Dictionary.keys entries) = some w' := by
  rw [← Option.isSome_iff_exists, newestSpelling?, List.find?_isSome]
  exact ⟨w, List.mem_reverse.mpr (List.mem_eraseDups.mpr hw), beq_iff_eq.mpr h⟩

end

/-- A reference to a key takes the value that the newest spelling of the key was given last. This
is the value of the last assignment to the key if that assignment uses the newest spelling. -/
theorem reference_takes_newest_spelling {read : Reader} {d : Disk} {request : Request}
    {given options : Dictionary Text Text} (h : Says read d request given options) :
    ∃ lines, Poses read d request (Dictionary.ofList (given ++ options)) lines ∧
      ∀ key : Text, key ≠ [] → (∀ c ∈ key, Text.isBlank c = false ∧ isDelimiter c = false) →
        ∀ last value,
          options.reverse.find? (fun e => Text.lower e.1 == Text.lower key) = some (last, value) →
          ∃ newest shown,
            newestSpelling? key (Dictionary.keys given ++ Dictionary.keys options) = some newest ∧
            Dictionary.find? (given ++ options).reverse newest = some shown ∧
            (newest = last → shown = value) ∧
            (∀ who, replacePiece (fixedOf (Dictionary.ofList (given ++ options))) percent who
              (.reference key) = pure shown) ∧
            (isClosed shown = true → ∀ who,
              (resolverOf (Dictionary.ofList (given ++ options))).resolve who
                (percent.verbatim (.reference key)) () = ⟨.ok shown, [], ()⟩) := by
  obtain ⟨lines, hposes⟩ := h.poses
  refine ⟨lines, hposes, fun key hkey hchars last value hlast => ?_⟩
  have hkeys : Dictionary.keys (given ++ options) =
      Dictionary.keys given ++ Dictionary.keys options := List.map_append
  have hmem : last ∈ Dictionary.keys (given ++ options) := by
    have hentry := List.mem_reverse.mp (List.mem_of_find?_eq_some hlast)
    exact List.mem_map_of_mem (List.mem_append_right given hentry)
  have hsame : Text.lower last = Text.lower key := by simpa using List.find?_some hlast
  obtain ⟨newest, hnewest⟩ := newestSpelling?_isSome hmem hsame
  obtain ⟨shown, hshown, hanswers⟩ := find?_merged hnewest
  have hreplaced : ∀ who, replacePiece (fixedOf (Dictionary.ofList (given ++ options))) percent who
      (.reference key) = pure shown := by
    intro who
    simp only [replacePiece, Registry.find?, hanswers]
    rfl
  refine ⟨newest, shown, hkeys ▸ hnewest, hshown, ?_, hreplaced, fun hclosed who => ?_⟩
  · -- read from the end, the options come before the file
    rintro rfl
    rw [List.reverse_append, Dictionary.find?_append, find?_spelling hlast] at hshown
    exact (Option.some.inj hshown).symm
  · refine resolve_reference hkey (fun c hc => ?_) (fun hc => ?_) (hreplaced who) hclosed ()
    · obtain ⟨hblank, hdelimiter⟩ := hchars c hc
      simp_all [percent, isDelimiter]
    · exact absurd (hchars _ hc).2 (by decide)

def respelled : Text :=
  "placeholders: {Level: 1, level: 2}\nconditions:\n  - '%level% == 12'\n".toList

def readRespelled : Reader := fun t =>
  let number (n : Text) : Content := .other true fun () => .ok n
  if t = respelled then
    .ok (.mapping
      [(.text "placeholders".toList, .mapping
          [(.text "Level".toList, number ['1']), (.text "level".toList, number ['2'])]
          fun () => .ok []),
        (.text "conditions".toList, .sequence [.text "%level% == 12".toList] fun () => .ok [])]
      fun () => .ok [])
  else .error (.invalid "another text")

def respelledDisk : Disk := Settings.diskWith "c.yaml" (Text.encodeUtf8 respelled)

def respelledFile : ConditionsFile :=
  ⟨["%level% == 12".toList], [("Level".toList, "1".toList), ("level".toList, "2".toList)]⟩

theorem respelled_loads :
    ConditionsFile.load readRespelled respelledDisk ⟨"", ["c.yaml"]⟩ = .ok respelledFile :=
  ok_of_toOption (by decide +kernel)

theorem respelled_given {item : String} {key value : Text}
    (h : assignment? item.toList = some (key, value)) :
    Says readRespelled respelledDisk (.check ⟨"", ["c.yaml"]⟩ (plainManner [item]))
      respelledFile.placeholders [(key, value)] := by
  refine .lines respelled_loads ?_
  change [item.toList].mapM assignment? = _
  rw [List.mapM_cons, h]
  rfl

/-- An assignment to the spelling that comes up last in the file counts for all spellings. -/
theorem reference_takes_lower_spelling :
    Says readRespelled respelledDisk (.check ⟨"", ["c.yaml"]⟩ (plainManner ["level=12"]))
      respelledFile.placeholders [("level".toList, "12".toList)] ∧
    (resolverOf (Dictionary.ofList (respelledFile.placeholders ++
      [("level".toList, "12".toList)]))).resolve none "%LEVEL%".toList () =
        ⟨.ok "12".toList, [], ()⟩ := by
  have hgiven := respelled_given (show assignment? "level=12".toList =
    some ("level".toList, "12".toList) from rfl)
  obtain ⟨lines, -, htakes⟩ := reference_takes_newest_spelling hgiven
  have hletters : ∀ c ∈ "LEVEL".toList, Text.isBlank c = false ∧ isDelimiter c = false := by
    simp [Text.isBlank, isDelimiter]
  obtain ⟨newest, shown, hnewest, -, hlast, -, hresolve⟩ := htakes "LEVEL".toList (by decide)
    hletters "level".toList "12".toList (by decide +kernel)
  have hspelling : newestSpelling? "LEVEL".toList (Dictionary.keys respelledFile.placeholders ++
      ["level".toList]) = some "level".toList := by decide +kernel
  obtain rfl : shown = "12".toList := hlast (Option.some.inj (hnewest.symm.trans hspelling))
  exact ⟨hgiven, hresolve (by decide +kernel) none⟩

/-- An assignment to the spelling that comes up first is lost to the other one in the file. -/
theorem reference_misses_last_assignment :
    Text.lower "Level".toList = Text.lower "level".toList ∧
    Says readRespelled respelledDisk (.check ⟨"", ["c.yaml"]⟩ (plainManner ["Level=12"]))
      respelledFile.placeholders [("Level".toList, "12".toList)] ∧
    ((resolverOf (Dictionary.ofList (respelledFile.placeholders ++
      [("Level".toList, "12".toList)]))).resolve none "%level%".toList ()).answer.toOption =
        some "2".toList ∧
    (run (plainSurroundings readRespelled) ["check", "c.yaml", "--set", "Level=12"]
      (Console.start respelledDisk)).1.status = some 1 := by
  have hgiven := respelled_given (show assignment? "Level=12".toList =
    some ("Level".toList, "12".toList) from rfl)
  refine ⟨by decide +kernel, hgiven, by decide +kernel, ?_⟩
  have hreaches : Reaches (plainSurroundings readRespelled) respelledDisk plainGeneral .check
      ["c.yaml", "--set", "Level=12"] ⟨Settings.engineDefaults, Settings.journalDefaults⟩
      respelledDisk (.check ⟨"", ["c.yaml"]⟩ (plainManner ["Level=12"])) :=
    ⟨plain_prepares readRespelled _, rfl⟩
  let values := Dictionary.insertAll respelledFile.placeholders [("Level".toList, "12".toList)]
  have hassigned : assigned? ["Level=12".toList] = some [("Level".toList, "12".toList)] := rfl
  have htruth : truth? values "%level% == 12".toList = some false := by decide +kernel
  have htold : ∀ line ∈ respelledFile.lines, (truth? values line).isSome = true := by
    intro line hline
    rw [List.mem_singleton.mp hline, htruth]
    rfl
  have hpasses : respelledFile.lines.all (passes values) = false := by
    change (passes values "%level% == 12".toList && true) = false
    rw [passes, htruth]
    rfl
  have hevaluates : Evaluates (plainSurroundings readRespelled) respelledDisk plainGeneral .check
      ["c.yaml", "--set", "Level=12"] _ respelledDisk _ values respelledFile.lines :=
    ⟨hreaches, .lines respelled_loads hassigned, 0, rfl⟩
  have hruns : ¬ Request.Stalls (.check ⟨"", ["c.yaml"]⟩ (plainManner ["Level=12"]))
      Settings.engineDefaults respelledFile.lines := fun hstalls => Bool.false_ne_true hstalls.1
  have hjudged := Judged.intro hevaluates hruns (.inr htold) rfl
  have hread : (plainSurroundings readRespelled).commandLine.general respelledDisk
      ["check", "c.yaml", "--set", "Level=12"] =
        .ok (plainGeneral, .check, ["c.yaml", "--set", "Level=12"]) := rfl
  rw [run_of_ends (judged_ends hread hjudged), hpasses]
  rfl

end Conditions.Command
