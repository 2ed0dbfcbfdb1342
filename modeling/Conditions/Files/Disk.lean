import Conditions.Dictionary
import Conditions.Files.Path
import Conditions.Text.Quoted
import Conditions.Text.Utf8

/-!
# Files on a disk

The files and directories that there are, by their parts from the root, and the working directory.
A path is walked part by part; a missing part, a file in the place of a directory, a directory that
may not be searched and a part that is longer than any name end the walk.
-/

set_option autoImplicit false

namespace Conditions.Files

inductive Node where
  | file (bytes : List Nat)
  | directory
  deriving DecidableEq, Repr, Inhabited

inductive Reason where
  | missing
  | exists
  | notDirectory
  | isDirectory
  | tooLong
  | denied
  deriving DecidableEq, Repr

def Node.bytes : Node → Except Reason (List Nat)
  | .file bytes => .ok bytes
  | .directory => .error .isDirectory

def Reason.text : Reason → String
  | .missing => "[Errno 2] No such file or directory"
  | .exists => "[Errno 17] File exists"
  | .notDirectory => "[Errno 20] Not a directory"
  | .isDirectory => "[Errno 21] Is a directory"
  | .tooLong => "[Errno 36] File name too long"
  | .denied => "[Errno 13] Permission denied"

inductive Access where
  | search
  | read
  | write
  deriving DecidableEq, Repr

structure Disk where
  here : List String
  nodes : Dictionary (List String) Node
  forbids : List String → Access → Bool

def nameLimit : Nat := 255

def pathLimit : Nat := 4095

namespace Disk

def node? (d : Disk) (place : List String) : Option Node :=
  if place.isEmpty then some .directory else Dictionary.find? d.nodes place

def walk (d : Disk) (place : List String) : List String → Except Reason (List String)
  | [] => .ok place
  | part :: rest =>
    match d.node? place with
    | none => .error .missing
    | some (.file _) => .error .notDirectory
    | some .directory =>
      if d.forbids place .search then .error .denied
      else if nameLimit < part.utf8ByteSize then .error .tooLong
      else d.walk (if part == ".." then place.dropLast else place ++ [part]) rest

def locate (d : Disk) (p : Path) : Except Reason (List String) :=
  if p.hasNull then .error .missing
  else if pathLimit < p.text.utf8ByteSize then .error .tooLong
  else d.walk (if p.isRelative then d.here else []) p.parts

def isFixed (d : Disk) (place : List String) : Bool :=
  d.forbids place.dropLast .search || d.forbids place.dropLast .write

def find (d : Disk) (p : Path) : Except Reason Node := do
  match d.node? (← d.locate p) with
  | some node => pure node
  | none => throw .missing

def isDirectory (d : Disk) (p : Path) : Bool :=
  match d.find p with
  | .ok .directory => true
  | _ => false

def read (d : Disk) (p : Path) : Except Reason (List Nat) := do
  let place ← d.locate p
  match d.node? place with
  | none => throw .missing
  | some node => if d.forbids place .read then throw .denied else node.bytes

def put (d : Disk) (place : List String) (node : Node) : Disk :=
  if place.isEmpty then d else { d with nodes := Dictionary.insert d.nodes place node }

def remove (d : Disk) (place : List String) : Disk :=
  { d with nodes := Dictionary.erase d.nodes place }

def beginnings : List String → List (List String)
  | [] => []
  | part :: rest => [part] :: (beginnings rest).map (part :: ·)

def grow (d : Disk) (place : List String) : Disk :=
  (beginnings place).foldl (fun d p => if (d.node? p).isSome then d else d.put p .directory) d

def empty (here : List String) : Disk := ⟨here, [], fun _ _ => false⟩

def ofList (here : List String) (entries : List (Path × Node)) : Disk :=
  entries.foldl (fun d e =>
    let place := (e.1.absolute here).parts
    (d.grow place.dropLast).put place e.2) ((empty here).grow here)

def makeDirectory (d : Disk) (p : Path) : Except Reason Disk := do
  let place ← d.locate p
  match d.node? place with
  | some _ => throw .exists
  | none => if d.isFixed place then throw .denied else pure (d.put place .directory)

def ensureDirectory (d : Disk) (p : Path) : Except Reason Disk :=
  match d.makeDirectory p with
  | .ok d => .ok d
  | .error .missing => .error .missing
  | .error reason => if d.isDirectory p then .ok d else .error reason

end Disk

structure Fault where
  reason : Reason
  path : Path
  deriving DecidableEq, Repr

def Fault.message (f : Fault) : String :=
  s!"{f.reason.text}: {String.ofList (Text.quoted f.path.text.toList)}"

def Reason.tellsAbsence : Reason → Bool
  | .missing | .notDirectory => true
  | .exists | .isDirectory | .tooLong | .denied => false

/-- What a path leads to, if there is anything. Of a path that is too long, or through a directory
that may not be searched, it cannot be told. -/
def Disk.lookUp (d : Disk) (p : Path) : Except Fault (Option Node) :=
  match d.find p with
  | .ok node => .ok (some node)
  | .error reason => if reason.tellsAbsence then .ok none else .error ⟨reason, p⟩

def Disk.ensureDirectories (d : Disk) (p : Path) : Except Fault Disk :=
  match d.ensureDirectory p with
  | .ok d => .ok d
  | .error .missing =>
    if p.parts.isEmpty then .error ⟨.missing, p⟩
    else do
      let d ← d.ensureDirectories p.parent
      (d.ensureDirectory p).mapError (⟨·, p⟩)
  | .error reason => .error ⟨reason, p⟩
termination_by p.parts.length
decreasing_by
  rename_i h
  cases hp : p.parts with
  | nil => simp [hp] at h
  | cons a l => simp [Path.parent, hp]

end Conditions.Files
