import Conditions.Dictionary
import Conditions.Json.Writer

/-!
# Outcomes of a command

A command ends with an exit code and with what it has written. The codes tell a false condition
from a failure: zero and one are kept for conditions that could be checked.
-/

set_option autoImplicit false

namespace Conditions.Command

inductive ExitCode where
  | success
  | conditionFalse
  | interrupted
  | configError
  | invalidInput
  | targetNotFound
  | parseError
  deriving DecidableEq, Repr, Inhabited

namespace ExitCode

def name : ExitCode → String
  | .success => "SUCCESS"
  | .conditionFalse => "CONDITION_FALSE"
  | .interrupted => "INTERRUPTED"
  | .configError => "CONFIG_ERROR"
  | .invalidInput => "INVALID_INPUT"
  | .targetNotFound => "TARGET_NOT_FOUND"
  | .parseError => "PARSE_ERROR"

def number : ExitCode → Int
  | .success => 0
  | .conditionFalse => 1
  | .interrupted => 3
  | .configError => 11
  | .invalidInput => 12
  | .targetNotFound => 20
  | .parseError => 51

def all : List ExitCode :=
  [.success, .conditionFalse, .interrupted, .configError, .invalidInput, .targetNotFound,
    .parseError]

def ofName? (name : String) : Option ExitCode := all.find? fun c => c.name == name

end ExitCode

inductive Format where
  | text
  | json
  deriving DecidableEq, Repr, Inhabited

structure Failed where
  code : ExitCode
  message : String
  deriving DecidableEq, Repr

def failureText (f : Format) (name message : String) : String :=
  match f with
  | .text => s!"Error: {message}\n"
  | .json =>
    let failure : Json := .object [("status", .string "failed"),
      ("error", .object [("code", .string name), ("message", .string message)])]
    String.ofList (failure.layout .line) ++ "\n"

def Failed.text (e : Failed) (f : Format) : String := failureText f e.code.name e.message

structure Verdict where
  passed : Bool
  message : String
  data : Dictionary String Json

namespace Verdict

def code (v : Verdict) : ExitCode := if v.passed then .success else .conditionFalse

def json (v : Verdict) : Json :=
  .object (Dictionary.insertAll
    [("status", .string "completed"), ("result", .bool v.passed), ("message", .string v.message)]
    v.data)

def text (v : Verdict) (f : Format) : Except Json.WriteFault String :=
  match f with
  | .text => .ok (v.message ++ "\n")
  | .json => v.json.pretty.map (· ++ "\n")

def ofResult (passed : Bool) (data : Dictionary String Json) : Verdict :=
  ⟨passed, if passed then "true" else "false", data⟩

end Verdict

end Conditions.Command
