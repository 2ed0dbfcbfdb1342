import Conditions.Journal.Draft
import Conditions.Proofs.Dictionary
import Conditions.Proofs.Json.RoundTrip

/-!
# Lines of the log

Whatever a record says, its line is one line of printable ASCII, and read as JSON it is the record
again: its own members first, then the context it was seen in, its further fields and its exception.
So a log falls apart into its lines, and no record can pass for another one. There is no line for a
record outside the calendar, or with a number of too many digits.
-/

set_option autoImplicit false

namespace Conditions.Journal

def attributes : List String :=
  ["args", "created", "exc_info", "exc_text", "filename", "funcName", "levelname", "levelno",
   "lineno", "module", "msecs", "msg", "name", "pathname", "process", "processName",
   "relativeCreated", "stack_info", "thread", "threadName"]

def additions : List String :=
  ["message", "asctime", "taskName", "expression", "caller", "expr_tag"]

theorem reservedNames_eq : reservedNames = attributes ++ additions := rfl

def isNoContext (name : String) : Bool := name != "expression" && name != "caller"

namespace Draft

def setAll (d : Draft) (fields : List (String × Json)) : Draft :=
  fields.foldl (fun d f => d.set f.1 f.2) d

structure Alike (d d' : Draft) : Prop where
  created : d'.created = d.created
  level : d'.level = d.level
  logger : d'.logger = d.logger
  template : d'.template = d.template
  arguments : d'.arguments = d.arguments
  exception : d'.exception = d.exception

theorem Alike.refl (d : Draft) : Alike d d := ⟨rfl, rfl, rfl, rfl, rfl, rfl⟩

theorem Alike.trans {d d' d'' : Draft} (h : Alike d d') (h' : Alike d' d'') : Alike d d'' :=
  ⟨h'.created.trans h.created, h'.level.trans h.level, h'.logger.trans h.logger,
    h'.template.trans h.template, h'.arguments.trans h.arguments, h'.exception.trans h.exception⟩

/-- What is set under another name than those of a record's own members is its context or a further
field. -/
theorem set_spec (d : Draft) {name : String} (hname : name ∉ attributes) (j : Json) :
    Alike d (d.set name j) ∧
      (d.set name j).extras = if name = "expression" ∨ name = "caller" then d.extras
        else d.extras.insert name j := by
  unfold set
  split
  · exact absurd (by decide +kernel) hname
  · exact absurd (by decide +kernel) hname
  · exact absurd (by decide +kernel) hname
  · exact absurd (by decide +kernel) hname
  · exact absurd (by decide +kernel) hname
  · exact ⟨⟨rfl, rfl, rfl, rfl, rfl, rfl⟩, (if_pos (.inl rfl)).symm⟩
  · exact ⟨⟨rfl, rfl, rfl, rfl, rfl, rfl⟩, (if_pos (.inr rfl)).symm⟩
  · rename_i hexpression hcaller
    exact ⟨⟨rfl, rfl, rfl, rfl, rfl, rfl⟩, (if_neg (not_or.mpr ⟨hexpression, hcaller⟩)).symm⟩

theorem setAll_spec (d : Draft) {fields : List (String × Json)}
    (hnames : ∀ f ∈ fields, f.1 ∉ attributes) :
    Alike d (d.setAll fields) ∧
      (d.setAll fields).extras = d.extras.insertAll (fields.filter fun f => isNoContext f.1) := by
  induction fields generalizing d with
  | nil => exact ⟨.refl d, rfl⟩
  | cons f fields ih =>
    obtain ⟨halike, hextras⟩ := d.set_spec (hnames f List.mem_cons_self) f.2
    obtain ⟨halike', hextras'⟩ :=
      ih (d.set f.1 f.2) fun g hg => hnames g (List.mem_cons_of_mem f hg)
    refine ⟨halike.trans halike', hextras'.trans ?_⟩
    rw [hextras, List.filter_cons]
    split
    · rename_i hcontext
      rw [if_neg (by simpa [isNoContext, imp_iff_not_or, or_comm] using hcontext)]
    · rename_i hcontext
      rw [if_pos (by simpa [isNoContext] using not_or.mp hcontext)]
      rfl

theorem report_eq {d : Draft} {time : Instant} {message : Text} (htime : d.time = .ok time)
    (htext : d.text = .ok message) :
    d.report = .ok
      { time
        level := d.level
        logger := d.logger
        message := String.ofList message
        expression := d.expression
        caller := d.caller
        extras := d.extras
        exception := d.exception } := by
  unfold report
  rw [htime, htext]
  rfl

def line (d : Draft) (fields : List (String × Json)) (c : Context) : Except DraftFault String := do
  let r ← (d.setAll fields).report
  (r.inContext c).line.mapError .written

theorem Alike.time_eq {d d' : Draft} (h : Alike d d') : d'.time = d.time := by
  unfold time
  rw [h.created]

theorem Alike.text_eq {d d' : Draft} (h : Alike d d') : d'.text = d.text := by
  unfold text
  rw [h.arguments, h.template]

end Draft

def isTold (name : String) : Bool := !additions.contains name && name.toList.head? != some '_'

/-- A record whose own members are texts, with any characters, at an instant of the calendar.
Further fields are set on it under names that are not its own, to values without infinite or
undefined numbers and without whole numbers of too many digits, and then it is seen in a context. -/
structure Emission where
  draft : Draft
  time : Instant
  level : String
  logger : String
  message : Text
  fields : List (String × Json)
  context : Context
  draft_time : draft.time = .ok time
  draft_level : draft.level = .string level
  draft_logger : draft.logger = .string logger
  draft_text : draft.text = .ok message
  draft_extras : draft.extras = []
  fields_names : ∀ f ∈ fields, f.1 ∉ attributes
  fields_finite : ∀ f ∈ fields, f.2.Finite
  fields_writable : ∀ f ∈ fields, f.2.isWritable = true

def textMember (name : String) : Option Text → List (String × Json)
  | some (c :: t) => [(name, .string (String.ofList (c :: t)))]
  | _ => []

namespace Emission

def line (e : Emission) : Except DraftFault String := e.draft.line e.fields e.context

def told (e : Emission) : Dictionary String Json :=
  (Dictionary.ofList e.fields).filter fun f => isTold f.1

def members (e : Emission) : List (String × Json) :=
  [("timestamp", .string e.time.precise), ("level", .string e.level), ("logger", .string e.logger),
    ("message", .string (String.ofList e.message))] ++
  textMember "expression" e.context.expression ++ textMember "caller" e.context.caller ++
  (if e.told.isEmpty then [] else [("extra", .object e.told)]) ++
  e.draft.exception.toList.map fun text => ("exception", .string text)

end Emission

theorem member_text (name : String) (t : Option Text) :
    Report.member name ((t.map fun t => Json.string (String.ofList t)).getD .null) =
      textMember name t := by
  rcases t with _ | _ | ⟨c, t⟩
  · rfl
  · rfl
  · have hne : String.ofList (c :: t) ≠ "" := by
      intro h
      have hchars := congrArg String.toList h
      rw [String.toList_ofList] at hchars
      cases hchars
    exact if_pos (bne_iff_ne.mpr hne)

/-- Under a name that is not a record's own, a field is written exactly if it is told. -/
theorem isExtra_eq_isTold {name : String} (h : name ∉ attributes) : isExtra name = isTold name := by
  unfold isExtra isTold
  rw [reservedNames_eq, List.contains_eq_mem, List.contains_eq_mem]
  simp [h]

theorem isNoContext_of_isTold {name : String} (h : isTold name = true) :
    isNoContext name = true := by
  unfold isNoContext
  rw [Bool.and_eq_true, bne_iff_ne, bne_iff_ne]
  constructor <;> rintro rfl <;> exact absurd h (by decide +kernel)

/-- Among fields that are not a record's own members, leaving out what the context is told under
and then what is reserved is leaving out what is not told. -/
theorem told_eq {fields : List (String × Json)} (hnames : ∀ f ∈ fields, f.1 ∉ attributes) :
    ((Dictionary.ofList (fields.filter fun f => isNoContext f.1)).filter fun f => isExtra f.1) =
      (Dictionary.ofList fields).filter fun f => isTold f.1 := by
  rw [Dictionary.filter_ofList, Dictionary.filter_ofList, List.filter_filter]
  refine congrArg Dictionary.ofList (List.filter_congr fun f hf => ?_)
  rw [isExtra_eq_isTold (hnames f hf)]
  cases htold : isTold f.1 with
  | false => rfl
  | true => exact isNoContext_of_isTold htold

theorem Emission.report_json (e : Emission) :
    ∃ r, (e.draft.setAll e.fields).report = .ok r ∧
      (r.inContext e.context).json = .object e.members := by
  obtain ⟨halike, hextras⟩ := e.draft.setAll_spec e.fields_names
  have htime : (e.draft.setAll e.fields).time = .ok e.time := halike.time_eq.trans e.draft_time
  have htext : (e.draft.setAll e.fields).text = .ok e.message := halike.text_eq.trans e.draft_text
  rw [e.draft_extras] at hextras
  have hreport := Draft.report_eq htime htext
  refine ⟨_, hreport, ?_⟩
  unfold Report.json Report.inContext Emission.members Emission.told
  dsimp only
  rw [member_text, member_text, hextras, halike.level, halike.logger, halike.exception,
    e.draft_level, e.draft_logger, ← told_eq e.fields_names]
  cases e.draft.exception <;> rfl

theorem Emission.told_value (e : Emission) {f : String × Json} (hf : f ∈ e.told) :
    ∃ g ∈ e.fields, g.2 = f.2 := by
  obtain ⟨g, hg, hvalue⟩ := Dictionary.exists_of_mem_ofList (List.mem_of_mem_filter hf)
  exact ⟨g, hg, hvalue⟩

theorem textMember_cases (name : String) (t : Option Text) :
    textMember name t = [] ∨ ∃ text, textMember name t = [(name, .string text)] := by
  rcases t with _ | _ | ⟨c, t⟩
  · exact .inl rfl
  · exact .inl rfl
  · exact .inr ⟨_, rfl⟩

theorem textMember_name (name : String) (t : Option Text) :
    ((textMember name t).map Prod.fst).Sublist [name] := by
  obtain hnone | ⟨text, hsome⟩ := textMember_cases name t
  · rw [hnone]
    exact List.nil_sublist _
  · rw [hsome]
    exact List.Sublist.refl _

theorem Emission.members_value (e : Emission) {m : String × Json} (hm : m ∈ e.members) :
    (∃ text, m.2 = .string text) ∨ m.2 = .object e.told := by
  have htext : ∀ name t, m ∈ textMember name t → ∃ text, m.2 = .string text := by
    intro name t h
    obtain hnone | ⟨text, hsome⟩ := textMember_cases name t
    · rw [hnone] at h
      cases h
    · rw [hsome] at h
      exact ⟨text, congrArg Prod.snd (List.mem_singleton.mp h)⟩
  unfold members at hm
  simp only [List.mem_append] at hm
  rcases hm with (((hown | hexpression) | hcaller) | hextra) | hexception
  · simp only [List.mem_cons, List.not_mem_nil, or_false] at hown
    rcases hown with rfl | rfl | rfl | rfl <;> exact .inl ⟨_, rfl⟩
  · exact .inl (htext _ _ hexpression)
  · exact .inl (htext _ _ hcaller)
  · split_ifs at hextra
    · cases hextra
    · exact .inr (congrArg Prod.snd (List.mem_singleton.mp hextra))
  · obtain ⟨text, -, rfl⟩ := List.mem_map.mp hexception
    exact .inl ⟨text, rfl⟩

theorem Emission.members_finite (e : Emission) : (Json.object e.members).Finite := by
  have htold : (Json.object e.told).Finite := by
    refine .object fun f hf => ?_
    obtain ⟨g, hg, hvalue⟩ := e.told_value hf
    exact hvalue ▸ e.fields_finite g hg
  refine .object fun m hm => ?_
  obtain ⟨text, hvalue⟩ | hvalue := e.members_value hm
  · exact hvalue ▸ .string text
  · exact hvalue ▸ htold

theorem Emission.members_writable (e : Emission) : (Json.object e.members).isWritable = true := by
  have htold : (Json.object e.told).isWritable = true := by
    rw [Json.isWritable, Json.haveWritable_eq_all, List.all_eq_true]
    intro f hf
    obtain ⟨g, hg, hvalue⟩ := e.told_value hf
    exact hvalue ▸ e.fields_writable g hg
  rw [Json.isWritable, Json.haveWritable_eq_all, List.all_eq_true]
  intro m hm
  obtain ⟨text, hvalue⟩ | hvalue := e.members_value hm
  · rw [hvalue]
    rfl
  · rw [hvalue, htold]

/-- No two members of a line have the same name, and no two of the further fields. -/
theorem Emission.nodup_names (e : Emission) :
    (Dictionary.keys e.members).Nodup ∧ (Dictionary.keys e.told).Nodup := by
  constructor
  · have hsublist : (Dictionary.keys e.members).Sublist ["timestamp", "level", "logger", "message",
        "expression", "caller", "extra", "exception"] := by
      have hextra : ((if e.told.isEmpty then [] else
          [("extra", Json.object e.told)]).map Prod.fst).Sublist ["extra"] := by
        split_ifs
        · exact List.nil_sublist _
        · exact List.Sublist.refl _
      have hexception : ((e.draft.exception.toList.map fun text =>
          ("exception", Json.string text)).map Prod.fst).Sublist ["exception"] := by
        cases e.draft.exception with
        | none => exact List.nil_sublist _
        | some text => exact List.Sublist.refl _
      unfold Dictionary.keys members
      simp only [List.map_append]
      exact ((((List.Sublist.refl _).append (textMember_name _ _)).append
        (textMember_name _ _)).append hextra).append hexception
    exact hsublist.nodup (by decide +kernel)
  · refine List.Sublist.nodup ?_ (Dictionary.nodup_keys_ofList e.fields)
    exact List.filter_sublist.map _

/-- The line of a record is printable ASCII, and is read as what the record says. -/
theorem Emission.line_spec (e : Emission) :
    ∃ t : Text, e.line = .ok (String.ofList t) ∧ (∀ c ∈ t, Json.Plain c) ∧
      Json.read? (String.ofList t) = some (.object e.members) := by
  obtain ⟨r, hreport, hjson⟩ := e.report_json
  have hline : (r.inContext e.context).line =
      .ok (String.ofList (Json.layout .line (.object e.members))) := by
    rw [Report.line, hjson, Json.line, Json.write, Json.written, if_pos e.members_writable]
    rfl
  refine ⟨Json.layout .line (.object e.members), ?_, e.members_finite.layout_plain,
    e.members_finite.read?_layout .line⟩
  rw [Emission.line, Draft.line, hreport]
  change (r.inContext e.context).line.mapError _ = _
  rw [hline]
  rfl

theorem pieces_append {mark : Char} {t : Text} (ht : mark ∉ t) (rest : Text) :
    Text.pieces mark (t ++ mark :: rest) = t :: Text.pieces mark rest := by
  induction t with
  | nil => exact if_pos rfl
  | cons c t ih =>
    obtain ⟨hc, ht⟩ := not_or.mp (List.mem_cons.not.mp ht)
    rw [List.cons_append, Text.pieces, if_neg (Ne.symm hc), ih ht]

/-- Lines without line breaks, each of them ended by one, are what the text falls apart into. -/
theorem pieces_lines {lines : List Text} (h : ∀ t ∈ lines, '\n' ∉ t) :
    Text.pieces '\n' (lines.flatMap fun t => t ++ ['\n']) = lines ++ [[]] := by
  induction lines with
  | nil => rfl
  | cons t lines ih =>
    obtain ⟨ht, hlines⟩ := List.forall_mem_cons.mp h
    rw [List.flatMap_cons, List.append_assoc, List.singleton_append, pieces_append ht, ih hlines,
      List.cons_append]

theorem exists_lines (records : List Emission) :
    ∃ lines : List Text, records.map Emission.line = lines.map (fun t => .ok (String.ofList t)) ∧
      (∀ t ∈ lines, ∀ c ∈ t, Json.Plain c) ∧
      lines.map (fun t => Json.read? (String.ofList t)) =
        records.map fun e => some (.object e.members) := by
  induction records with
  | nil => exact ⟨[], rfl, by simp, rfl⟩
  | cons e records ih =>
    obtain ⟨lines, hlines, hplain, hread⟩ := ih
    obtain ⟨t, hline, ht, hobject⟩ := e.line_spec
    refine ⟨t :: lines, ?_, List.forall_mem_cons.mpr ⟨ht, hplain⟩, ?_⟩
    · rw [List.map_cons, List.map_cons, hline, hlines]
    · rw [List.map_cons, List.map_cons, hobject, hread]

/-- Records leave the log in lines of their own, all of printable ASCII, and the lines are read as
what the records say: in each of them the record's own members, the context unless it is empty, the
told fields in their order and the exception, none of them under the name of another. Whatever the
records say, the log falls apart into the same lines. -/
theorem log_decodes (records : List Emission) :
    ∃ lines : List Text, records.map Emission.line = lines.map (fun t => .ok (String.ofList t)) ∧
      (∀ t ∈ lines, ∀ c ∈ t, Json.Plain c) ∧
      lines.map (fun t => Json.read? (String.ofList t)) =
        records.map (fun e => some (.object e.members)) ∧
      (∀ e ∈ records, (Dictionary.keys e.members).Nodup ∧ (Dictionary.keys e.told).Nodup) ∧
      Text.pieces '\n' (lines.flatMap fun t => t ++ ['\n']) = lines ++ [[]] := by
  obtain ⟨lines, hlines, hplain, hread⟩ := exists_lines records
  have hbreak : ∀ t ∈ lines, '\n' ∉ t := fun t ht hmem =>
    absurd (hplain t ht _ hmem) (by decide)
  exact ⟨lines, hlines, hplain, hread, fun e _ => e.nodup_names, pieces_lines hbreak⟩

def forger : Emission where
  draft :=
    { created := .int 0
      level := .string "INFO"
      logger := .string "condexpr"
      template := .string "\"\x7d\n\x7b\"level\": \"ERROR\""
      arguments := none
      expression := .null
      caller := .null
      extras := []
      exception := none }
  time := ⟨0⟩
  level := "INFO"
  logger := "condexpr"
  message := "\"\x7d\n\x7b\"level\": \"ERROR\"".toList
  fields := [("level", .string "ERROR"), ("_hidden", .null), ("caller", .string "nobody"),
    ("zero", .object [("", .array [.float ⟨true, 0⟩, .int (-1)])])]
  context := ⟨some ['a', Char.ofNat 0x1f600], some []⟩
  draft_time := by decide +kernel
  draft_level := rfl
  draft_logger := rfl
  draft_text := rfl
  draft_extras := rfl
  fields_names := by decide +kernel
  fields_finite := by
    have hnumbers : (Json.array [.float ⟨true, 0⟩, .int (-1)]).Finite :=
      .array (List.forall_mem_cons.mpr
        ⟨.float (by decide +kernel), List.forall_mem_singleton.mpr (.int _)⟩)
    have hzero : (Json.object [("", .array [.float ⟨true, 0⟩, .int (-1)])]).Finite :=
      .object (List.forall_mem_singleton.mpr hnumbers)
    exact List.forall_mem_cons.mpr ⟨.string _, List.forall_mem_cons.mpr ⟨.null,
      List.forall_mem_cons.mpr ⟨.string _, List.forall_mem_singleton.mpr hzero⟩⟩⟩
  fields_writable := by decide +kernel

def bare : Emission :=
  { forger with
    fields := []
    context := .none
    fields_names := by simp
    fields_finite := by simp
    fields_writable := by simp }

/-- Two lines remain two lines, and say what the records said. -/
theorem log_decodes_forger :
    let front := "\x7b\"timestamp\": \"1970-01-01T00:00:00+00:00\", \"level\": \"INFO\", " ++
      "\"logger\": \"condexpr\", \"message\": \"\\\"\x7d\\n\x7b\\\"level\\\": \\\"ERROR\\\"\""
    let first := front ++ ", \"expression\": \"a\\ud83d\\ude00\", " ++
      "\"extra\": \x7b\"level\": \"ERROR\", \"zero\": \x7b\"\": [-0.0, -1]\x7d\x7d\x7d"
    let second := front ++ "\x7d"
    [forger, bare].map (fun e => e.line.toOption) = [some first, some second] ∧
      [first, second].map Json.read? = [forger, bare].map (fun e => some (.object e.members)) ∧
      Text.pieces '\n' (first.toList ++ '\n' :: (second.toList ++ ['\n'])) =
        [first.toList, second.toList, []] := by
  intro front first second
  have hwritten : [forger, bare].map (fun e => e.line.toOption) = [some first, some second] := by
    decide +kernel
  obtain ⟨lines, hlines, -, hread, -, hpieces⟩ := log_decodes [forger, bare]
  have hstrings : lines.map (fun t => some (String.ofList t)) = [some first, some second] := by
    have htaken := congrArg (List.map Except.toOption) hlines
    rw [List.map_map, List.map_map] at htaken
    exact htaken.symm.trans hwritten
  have htexts : lines = [first.toList, second.toList] := by
    have htaken := congrArg (List.map fun s => (s.getD "").toList) hstrings
    simpa [Function.comp_def] using htaken
  subst htexts
  refine ⟨hwritten, ?_, ?_⟩
  · simpa only [List.map_cons, List.map_nil, String.ofList_toList] using hread
  · simpa only [List.flatMap_cons, List.flatMap_nil, List.append_assoc, List.append_nil,
      List.singleton_append, List.cons_append, List.nil_append] using hpieces

/-- A number of 4301 digits among the further fields of a record has no text, and neither has an
instant after the last year of the calendar; the record has no line then. -/
theorem line_of_unwritable :
    let fields := [("count", Json.int (pow10 4300))]
    (∀ f ∈ fields, f.1 ∉ attributes ∧ f.2.Finite) ∧
      bare.draft.line fields .none = .error (.written .tooLong) ∧
      { bare.draft with created := .int 253402300800 }.line [] .none =
        .error (.instant (.noYear 10000)) := by
  intro fields
  have hnames : "count" ∉ attributes := by decide +kernel
  have hfields : ∀ f ∈ fields, f.1 ∉ attributes ∧ f.2.Finite :=
    List.forall_mem_singleton.mpr ⟨hnames, .int _⟩
  exact ⟨hfields, by decide +kernel, by decide +kernel⟩

end Conditions.Journal
