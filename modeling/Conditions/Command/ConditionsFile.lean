import Conditions.Command.Content
import Conditions.Dictionary
import Conditions.Files.Disk

/-!
# Files of conditions

A file of conditions is a list of conditions, or a mapping that holds such a list and perhaps a
mapping of placeholders to their values. Its text is read by a given reader of documents.
-/

set_option autoImplicit false

namespace Conditions.Command
open Files (Path Disk)

structure ConditionsFile where
  lines : List Text
  placeholders : Dictionary Text Text
  deriving DecidableEq, Repr

inductive FileFault where
  | missing (path : Path)
  | unreadable (path : Path) (why : String)
  | placeholders
  | conditions
  | undecodable (fault : Text.Utf8Fault)
  | raised (r : Raised)
  | unknown (fault : Files.Fault)

namespace ConditionsFile

def texts? : List Content → Option (List Text)
  | [] => some []
  | .text t :: rest => (texts? rest).map (t :: ·)
  | _ => none

def linesOf : Content → Except FileFault (List Text)
  | .null => .ok []
  | .sequence elements _ => (texts? elements).elim (.error .conditions) .ok
  | _ => .error .conditions

def placeholdersOf (v : Content) : Except FileFault (Dictionary Text Text) :=
  match v with
  | .mapping entries _ =>
    let texts := entries.mapM fun (k, v) => do pure (← k.shown, ← v.shown)
    (texts.map Dictionary.ofList).mapError .raised
  | v => if v.isTelling then .error .placeholders else .ok []

def ofContent : Content → Except FileFault ConditionsFile
  | .mapping entries _ => do
    let placeholders ← placeholdersOf (Content.get entries "placeholders".toList)
    let lines ← linesOf (Content.get entries "conditions".toList)
    pure ⟨lines, placeholders⟩
  | v => do pure ⟨← linesOf v, []⟩

def plainLines : Text → Text
  | '\r' :: '\n' :: rest => '\n' :: plainLines rest
  | '\r' :: rest => '\n' :: plainLines rest
  | c :: rest => c :: plainLines rest
  | [] => []

def ofText (read : Reader) (p : Path) (t : Text) : Except FileFault ConditionsFile :=
  match read (plainLines t) with
  | .ok v => ofContent v
  | .error (.invalid message) => .error (.unreadable p message)
  | .error (.raised r) => .error (.raised r)

def bytes (d : Disk) (p : Path) : Except FileFault (List Nat) :=
  match d.lookUp p with
  | .error fault => .error (.unknown fault)
  | .ok (some (.file _)) =>
    (d.read p).mapError fun reason => .unreadable p (Files.Fault.message ⟨reason, p⟩)
  | .ok _ => .error (.missing p)

def load (read : Reader) (d : Disk) (p : Path) : Except FileFault ConditionsFile := do
  let t ← (Text.decodeUtf8 (← bytes d p)).mapError .undecodable
  ofText read p t

end ConditionsFile

end Conditions.Command
