import Conditions.Settings.Load

/-!
# Loading step by step

A step of loading gives an answer and adds notes to the journal, whatever was said before. Steps
follow one another until one of them gives a fault. For every step it is said what it gives.
-/

set_option autoImplicit false

namespace Conditions

section
variable {ε α β : Type} {x : Except ε α} {f : α → Except ε β}

theorem ok_of_toOption {a : α} (h : x.toOption = some a) : x = .ok a := by
  cases x with
  | ok a' =>
    cases h
    rfl
  | error fault => cases h

theorem ok_of_bind {b : β} (h : x >>= f = .ok b) : ∃ a, x = .ok a ∧ f a = .ok b := by
  cases x with
  | ok a => exact ⟨a, rfl, h⟩
  | error fault => cases h

theorem error_of_bind {fault : ε} (h : x >>= f = .error fault) :
    x = .error fault ∨ ∃ a, x = .ok a ∧ f a = .error fault := by
  cases x with
  | ok a => exact .inr ⟨a, rfl, h⟩
  | error fault' =>
    cases h
    exact .inl rfl

end

end Conditions

namespace Conditions.Settings
open Files (Path Disk Homes HomeFault)
open Journal (Entry)

namespace Loading

variable {α β : Type}

def Gives (x : Loading α) (answer : Except LoadFault α) (notes : List Entry) : Prop :=
  ∀ said, x.run.run said = (answer, said ++ notes)

theorem run_bind (x : Loading α) (f : α → Loading β) (said : List Entry) :
    (x >>= f).run.run said = match x.run.run said with
      | (.ok a, said') => (f a).run.run said'
      | (.error fault, said') => (.error fault, said') := by
  rw [ExceptT.run_bind, StateT.run_bind]
  cases x.run.run said with
  | mk answer said' => cases answer <;> rfl

namespace Gives

variable {x : Loading α} {f : α → Loading β} {a : α} {b : Except LoadFault β} {fault : LoadFault}
  {notes notes' : List Entry}

theorem bind (hx : Gives x (.ok a) notes) (hf : Gives (f a) b notes') :
    Gives (x >>= f) b (notes ++ notes') := by
  intro said
  rw [run_bind, hx said, ← List.append_assoc]
  exact hf _

theorem stop (hx : Gives x (.error fault) notes) : Gives (x >>= f) (.error fault) notes := by
  intro said
  rw [run_bind, hx said]

theorem pure (a : α) : Gives (Pure.pure a) (.ok a) [] :=
  fun said => congrArg (Except.ok a, ·) (List.append_nil said).symm

theorem throw (fault : LoadFault) : Gives (MonadExcept.throw fault : Loading α) (.error fault) [] :=
  fun said => congrArg (Except.error fault, ·) (List.append_nil said).symm

/-- A step behind which nothing is left to do but to put its answer together. -/
theorem finish {c : β} (hx : Gives x (.ok a) notes) (hf : f a = Pure.pure c) :
    Gives (x >>= f) (.ok c) notes := by
  intro said
  rw [run_bind, hx said]
  simp only [hf]
  rfl

theorem say (entry : Entry) : Gives (Loading.say entry) (.ok ()) [entry] := fun _ => rfl

theorem ofExcept {ε : Type} (f : ε → LoadFault) (a : Except ε α) :
    Gives (Loading.ofExcept f a) (a.mapError f) [] := by
  cases a with
  | ok a => exact pure a
  | error e => exact throw (f e)

theorem sayAll (entries : List Entry) : Gives (entries.forM Loading.say) (.ok ()) entries := by
  induction entries with
  | nil => exact pure ()
  | cons entry entries ih => exact (say entry).bind ih

end Gives

end Loading

open Loading

inductive Opened (d : Disk) (p : Path) : Except LoadFault Toml.Table → List Entry → Prop where
  | missing (absent : d.lookUp p = .ok none) : Opened d p (.ok []) [fileMissing p]
  | unknown {fault : Files.Fault} (unknown : d.lookUp p = .error fault) :
      Opened d p (.error (.unknown fault)) []
  | unreadable {node : Files.Node} {reason : Files.Reason} (found : d.lookUp p = .ok (some node))
      (read : d.read p = .error reason) : Opened d p (.error (.unreadable p reason)) []
  | undecodable {node : Files.Node} {bytes : List Nat} {fault : Text.Utf8Fault}
      (found : d.lookUp p = .ok (some node)) (read : d.read p = .ok bytes)
      (decoded : Text.decodeUtf8 bytes = .error fault) : Opened d p (.error (.undecodable fault)) []
  | invalid {node : Files.Node} {bytes : List Nat} {text : Text}
      (found : d.lookUp p = .ok (some node)) (read : d.read p = .ok bytes)
      (decoded : Text.decodeUtf8 bytes = .ok text) (parsed : Toml.read text = .error .invalid) :
      Opened d p (.error (.invalidToml p)) []
  | digits {node : Files.Node} {bytes : List Nat} {text : Text} {count : Nat}
      (found : d.lookUp p = .ok (some node)) (read : d.read p = .ok bytes)
      (decoded : Text.decodeUtf8 bytes = .ok text)
      (parsed : Toml.read text = .error (.tooManyDigits count)) :
      Opened d p (.error (.tooManyDigits count)) []
  | table {node : Files.Node} {bytes : List Nat} {text : Text} {t : Toml.Table}
      (found : d.lookUp p = .ok (some node)) (read : d.read p = .ok bytes)
      (decoded : Text.decodeUtf8 bytes = .ok text) (parsed : Toml.read text = .ok t) :
      Opened d p (.ok t) []

section
variable {d : Disk} {p : Path}

theorem opened_total (d : Disk) (p : Path) : ∃ answer notes, Opened d p answer notes := by
  cases hfound : d.lookUp p with
  | error fault => exact ⟨_, _, .unknown hfound⟩
  | ok node =>
    cases node with
    | none => exact ⟨_, _, .missing hfound⟩
    | some node =>
      cases hread : d.read p with
      | error reason => exact ⟨_, _, .unreadable hfound hread⟩
      | ok bytes =>
        cases hdecoded : Text.decodeUtf8 bytes with
        | error fault => exact ⟨_, _, .undecodable hfound hread hdecoded⟩
        | ok text =>
          cases hparsed : Toml.read text with
          | ok t => exact ⟨_, _, .table hfound hread hdecoded hparsed⟩
          | error fault =>
            cases fault with
            | invalid => exact ⟨_, _, .invalid hfound hread hdecoded hparsed⟩
            | tooManyDigits count => exact ⟨_, _, .digits hfound hread hdecoded hparsed⟩

theorem loadFile_found {node : Files.Node} {answer : Except LoadFault Toml.Table}
    (found : d.lookUp p = .ok (some node))
    (h : Gives (ofExcept (.unreadable p) (d.read p) >>= fun bytes =>
      ofExcept .undecodable (Text.decodeUtf8 bytes) >>= fun text =>
        match Toml.read text with
        | .ok table => pure table
        | .error .invalid => throw (.invalidToml p)
        | .error (.tooManyDigits count) => throw (.tooManyDigits count)) answer []) :
    Gives (loadFile d p) answer [] := by
  unfold loadFile
  rw [found]
  exact h

theorem Opened.gives {answer : Except LoadFault Toml.Table} {notes : List Entry}
    (h : Opened d p answer notes) : Gives (loadFile d p) answer notes := by
  cases h with
  | missing absent =>
    unfold loadFile
    rw [absent]
    exact (Gives.pure _).bind ((Gives.say _).finish rfl)
  | unknown unknown =>
    unfold loadFile
    rw [unknown]
    exact (Gives.throw _).stop
  | unreadable found read =>
    refine loadFile_found found ?_
    rw [read]
    exact (Gives.throw _).stop
  | undecodable found read decoded =>
    refine loadFile_found found ?_
    rw [read]
    refine (Gives.pure _).bind ?_
    rw [decoded]
    exact (Gives.throw _).stop
  | invalid found read decoded parsed | digits found read decoded parsed =>
    refine loadFile_found found ?_
    rw [read]
    refine (Gives.pure _).bind ?_
    rw [decoded]
    refine (Gives.pure _).bind ?_
    rw [parsed]
    exact .throw _
  | table found read decoded parsed =>
    refine loadFile_found found ?_
    rw [read]
    refine (Gives.pure _).bind ?_
    rw [decoded]
    refine (Gives.pure _).bind ?_
    rw [parsed]
    exact .pure _

end

def diskWith (name : String) (bytes : List Nat) : Disk where
  here := ["w"]
  nodes := [(["w"], .directory), (["w", name], .file bytes)]
  forbids _ _ := false

def section? (t : Toml.Table) (name : String) : Option Toml.Table :=
  match t.find? name with
  | none => some []
  | some (.table members) => some members
  | some _ => none

def unknownIn (members : Toml.Table) (known : List String) : List String :=
  (Dictionary.keys members).filter fun key => !known.contains key

def unknownNotes (name : String) (members : Toml.Table) (known : List String) : List Entry :=
  if (unknownIn members known).isEmpty then []
  else [unknownKeys name ((unknownIn members known).foldr insertSorted [])]

def knownFields (members : Toml.Table) (known : List String) : Fields :=
  (members.filter fun m => known.contains m.1).map fun m => (m.1, .value m.2)

section
variable {t : Toml.Table} {name : String}

theorem loadSection_gives {members : Toml.Table} (h : section? t name = some members)
    (known : List String) :
    Gives (loadSection t name known) (.ok (knownFields members known))
      (unknownNotes name members known) := by
  have hmembers : (t.find? name).getD (.table []) = .table members := by
    unfold section? at h
    split at h <;> cases h <;> simp [*]
  unfold loadSection
  rw [hmembers]
  unfold unknownNotes
  simp only
  change Gives (if (!(unknownIn members known).isEmpty) = true then _ else _) _ _
  cases (unknownIn members known).isEmpty with
  | true => exact .pure _
  | false => exact (Gives.say _).finish rfl

theorem loadSection_notTable (h : section? t name = none) (known : List String) :
    Gives (loadSection t name known) (.error (.notTable name)) [] := by
  unfold loadSection
  unfold section? at h
  split at h
  · cases h
  · cases h
  · rename_i v hnot hfound
    rw [hfound]
    cases v with
    | table members => exact absurd rfl (hnot members)
    | _ => exact .throw _

end

section
variable {homes : Homes} {f : Fields}

theorem resolveFile_none (h : f.find? "file" = none) : Gives (resolveFile homes f) (.ok f) [] := by
  unfold resolveFile
  rw [h]
  exact .pure f

theorem resolveFile_path {s : String} {p : Path} (h : f.find? "file" = some (.string s))
    (hp : (Path.read s).expandHome homes = .ok p) :
    Gives (resolveFile homes f) (.ok (f.insert "file" (.path p))) [] := by
  unfold resolveFile
  rw [h]
  unfold Setting.string
  simp only [hp]
  exact (Gives.pure p).bind (.pure _)

theorem resolveFile_home {s : String} {fault : HomeFault} (h : f.find? "file" = some (.string s))
    (hp : (Path.read s).expandHome homes = .error fault) :
    Gives (resolveFile homes f) (.error (.home fault)) [] := by
  unfold resolveFile
  rw [h]
  unfold Setting.string
  simp only [hp]
  exact (Gives.throw _).stop

theorem resolveFile_notPath {v : Setting} (h : f.find? "file" = some v)
    (hv : ∀ s, v ≠ .string s) : Gives (resolveFile homes f) (.error (.notPath v.kind)) [] := by
  unfold resolveFile
  rw [h]
  split
  · rename_i s hs
    cases hs
    exact absurd rfl (hv s)
  · rename_i hs
    cases hs
    exact .throw _
  · rename_i hs
    cases hs

end

def Environment.number? (e : Environment) (name : String) : Option Setting :=
  (e.int? name).1.map .int

def Environment.word? (e : Environment) (name : String) : Option Setting :=
  (e.text? name).map .string

theorem engineVariables_gives (e : Environment) :
    Gives (engineVariables e)
      (.ok (fieldOf "max_workers" (e.number? "CONDEXPR_MAX_WORKERS") ++
        fieldOf "cache_size" (e.number? "CONDEXPR_CACHE_SIZE")))
      ((e.int? "CONDEXPR_MAX_WORKERS").2 ++ (e.int? "CONDEXPR_CACHE_SIZE").2) := by
  have hread : ∀ key name, Gives (do
      (e.int? name).2.forM say
      pure (fieldOf key ((e.int? name).1.map .int))) (.ok (fieldOf key (e.number? name)))
      (e.int? name).2 :=
    fun key name => (Gives.sayAll _).finish rfl
  exact (hread _ _).bind ((hread _ _).finish rfl)

theorem journalVariables_gives {e : Environment} {file : Option Path}
    (h : e.path? "CONDEXPR_LOG_FILE" = .ok file) :
    Gives (journalVariables e)
      (.ok (fieldOf "level" (e.word? "CONDEXPR_LOG_LEVEL") ++ fieldOf "file" (file.map .path) ++
        fieldOf "format" (e.word? "CONDEXPR_LOG_FORMAT"))) [] := by
  unfold journalVariables
  rw [h]
  exact (Gives.pure _).finish rfl

theorem journalVariables_home {e : Environment} {fault : HomeFault}
    (h : e.path? "CONDEXPR_LOG_FILE" = .error fault) :
    Gives (journalVariables e) (.error (.home fault)) [] := by
  unfold journalVariables
  rw [h]
  exact (Gives.throw _).stop

end Conditions.Settings
