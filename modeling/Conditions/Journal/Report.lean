import Conditions.Dictionary
import Conditions.Journal.Entry
import Conditions.Journal.Instant
import Conditions.Json.Shown

/-!
# Reports

A report is a record with everything that may go with it: the instant, further fields, and an
exception. It is written as one JSON object, whose members come in a fixed order and of which only
the first four are always there.
-/

set_option autoImplicit false

namespace Conditions.Journal

structure Report where
  time : Instant
  level : Json
  logger : Json
  message : String
  expression : Json
  caller : Json
  extras : Dictionary String Json
  exception : Option String

def reservedNames : List String :=
  ["args", "created", "exc_info", "exc_text", "filename", "funcName", "levelname", "levelno",
   "lineno", "module", "msecs", "msg", "name", "pathname", "process", "processName",
   "relativeCreated", "stack_info", "thread", "threadName", "message", "asctime", "taskName",
   "expression", "caller", "expr_tag"]

def isExtra (name : String) : Bool := !reservedNames.contains name && name.toList.head? != some '_'

namespace Report

def ofRecord (time : Instant) (r : Record) : Report :=
  let text := fun (t : Option Text) => (t.map fun t => Json.string (String.ofList t)).getD .null
  { time
    level := .string r.entry.level.name
    logger := .string r.entry.logger
    message := r.entry.message
    expression := text r.context.expression
    caller := text r.context.caller
    extras := []
    exception := none }

def inContext (r : Report) (c : Context) : Report :=
  let text := fun (t : Option Text) => (t.map fun t => Json.string (String.ofList t)).getD .null
  { r with expression := text c.expression, caller := text c.caller }

def member (name : String) (j : Json) : List (String × Json) := if j.isTelling then [(name, j)] else []

def json (r : Report) : Json :=
  let extras := r.extras.filter fun e => isExtra e.1
  .object <|
    [("timestamp", .string r.time.precise), ("level", r.level),
     ("logger", r.logger), ("message", .string r.message)] ++
    member "expression" r.expression ++
    member "caller" r.caller ++
    (if extras.isEmpty then [] else [("extra", .object extras)]) ++
    (match r.exception with
      | some e => [("exception", .string e)]
      | none => [])

def line (r : Report) : Except Json.WriteFault String := r.json.line

end Report

def textLine (time : Instant) (r : Record) : String :=
  let level := r.entry.level.name
  let fill := String.ofList (List.replicate (7 - level.length) ' ')
  s!"{time.short} {level}{fill} {String.ofList r.context.tag}{r.entry.logger}: {r.entry.message}"

end Conditions.Journal
