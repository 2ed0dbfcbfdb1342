import Conditions.Journal.Report
import Conditions.Journal.Template

/-!
# Drafts of reports

A draft holds what is given for a report: a count of seconds instead of an instant, and a template
with arguments instead of a message. A field may be set to any value, whatever its name means to a
report; what does not fit is found when the report is made.
-/

set_option autoImplicit false

namespace Conditions.Journal

structure Draft where
  created : Json
  level : Json
  logger : Json
  template : Json
  arguments : Option Arguments
  expression : Json
  caller : Json
  extras : Dictionary String Json
  exception : Option String

inductive DraftFault where
  | instant (fault : InstantFault)
  | notSeconds (kind : String)
  | template (fault : TemplateFault)
  | written (fault : Json.WriteFault)
  deriving DecidableEq, Repr

def DraftFault.message : DraftFault → String
  | .instant fault => fault.message
  | .notSeconds kind => s!"'{kind}' object cannot be interpreted as an integer"
  | .template fault => fault.message
  | .written fault => fault.message

namespace Draft

def set (d : Draft) (name : String) (j : Json) : Draft :=
  match name with
  | "created" => { d with created := j }
  | "levelname" => { d with level := j }
  | "name" => { d with logger := j }
  | "msg" => { d with template := j }
  | "args" => { d with arguments := if j.isTelling then some (.ofValue j) else none }
  | "expression" => { d with expression := j }
  | "caller" => { d with caller := j }
  | name => { d with extras := d.extras.insert name j }

def time (d : Draft) : Except DraftFault Instant :=
  match d.created with
  | .float x => (Instant.ofSeconds? x).mapError .instant
  | .int n => (Instant.ofSeconds? (.ofInt n)).mapError .instant
  | .bool b => .ok ⟨if b then 1000000 else 0⟩
  | j => .error (.notSeconds j.kind)

def text (d : Draft) : Except DraftFault Text := do
  let template ← d.template.shown.mapError .written
  match d.arguments with
  | some a => (fill template a).mapError .template
  | none => pure template

def report (d : Draft) : Except DraftFault Report := do
  let time ← d.time
  let message ← d.text
  pure
    { time
      level := d.level
      logger := d.logger
      message := String.ofList message
      expression := d.expression
      caller := d.caller
      extras := d.extras
      exception := d.exception }

end Draft

end Conditions.Journal
