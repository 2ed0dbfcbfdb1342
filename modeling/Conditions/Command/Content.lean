import Conditions.Text.Basic

/-!
# Contents of documents

What a reader of documents makes of a text: nothing, a text, a sequence, a mapping or some other
value. The text of a value other than a text is made when it is asked for, and that may fail.
-/

set_option autoImplicit false

namespace Conditions.Command

structure Raised where
  kind : String
  message : String
  deriving DecidableEq, Repr, Inhabited

inductive Content where
  | null
  | text (t : Text)
  | sequence (elements : List Content) (shown : Unit → Except Raised Text)
  | mapping (entries : List (Content × Content)) (shown : Unit → Except Raised Text)
  | other (isTelling : Bool) (shown : Unit → Except Raised Text)

namespace Content

def shown : Content → Except Raised Text
  | .null => .ok ['N', 'o', 'n', 'e']
  | .text t => .ok t
  | .sequence _ shown | .mapping _ shown | .other _ shown => shown ()

def isTelling : Content → Bool
  | .null => false
  | .text t => !t.isEmpty
  | .sequence elements _ => !elements.isEmpty
  | .mapping entries _ => !entries.isEmpty
  | .other isTelling _ => isTelling

def isText (t : Text) : Content → Bool
  | .text t' => t' == t
  | _ => false

def get (entries : List (Content × Content)) (key : Text) : Content :=
  ((entries.find? fun e => e.1.isText key).map (·.2)).getD .null

end Content

inductive ReadFault where
  | invalid (message : String)
  | raised (r : Raised)
  deriving DecidableEq, Repr

abbrev Reader := Text → Except ReadFault Content

end Conditions.Command
