import Conditions.Command.Content
import Conditions.Command.Outcome
import Conditions.Files.Disk

/-!
# Requests

What a command line asks for. Words in front of the name of the command are about the configuration
and the journal, those behind it about the command itself. How words are read is given from outside;
the disk is asked whether a path may be one of a file.
-/

set_option autoImplicit false

namespace Conditions.Command
open Files (Path Disk)

structure General where
  config : Option Path
  logLevel : Option String
  logFile : Option Path
  logJson : Bool

inductive Task where
  | evaluate
  | check
  | tokens
  deriving DecidableEq, Repr

structure Manner where
  assignments : List Text
  caller : Option Text
  onWorker : Bool
  format : Format

inductive Request where
  | evaluate (expression : Text) (m : Manner)
  | check (file : Path) (m : Manner)
  | tokens (expression : Text)

inductive UsageFault where
  | misused
  | helped (text : String)
  | raised (r : Raised)
  deriving DecidableEq, Repr

structure CommandLine where
  general : Disk → List String → Except UsageFault (General × Task × List String)
  evaluate : Disk → List String → Except UsageFault (Text × Manner)
  check : Disk → List String → Except UsageFault (Path × Manner)
  tokens : Disk → List String → Except UsageFault Text

namespace CommandLine

def request (l : CommandLine) (d : Disk) (task : Task) (words : List String) :
    Except UsageFault Request :=
  match task with
  | .evaluate => (l.evaluate d words).map fun (expression, m) => .evaluate expression m
  | .check => (l.check d words).map fun (p, m) => .check p m
  | .tokens => (l.tokens d words).map .tokens

end CommandLine

end Conditions.Command
