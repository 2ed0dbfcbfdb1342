import Conditions.Command.Option

/-!
# The standard command line

The words of the program: the options in front of the name of a command, the commands, and the
options behind their names. Help is given before anything else is looked at.
-/

set_option autoImplicit false

namespace Conditions.Command
open Files (Path Disk)

def taskNames : List (String × Task) :=
  [("eval", .evaluate), ("check", .check), ("tokens", .tokens)]

def helpForm : OptionForm := ⟨"--help", false⟩

def generalForms : List OptionForm :=
  [⟨"--config", true⟩, ⟨"--log-level", true⟩, ⟨"--log-file", true⟩, ⟨"--log-json", false⟩,
    ⟨"--version", false⟩, helpForm]

def mannerForms : List OptionForm :=
  [⟨"--set", true⟩, ⟨"--caller", true⟩, ⟨"--async", false⟩, ⟨"--format", true⟩, helpForm]

def levelChoices : List (String × String) :=
  ["debug", "info", "warning", "error"].map fun level => (level, level)

def formatChoices : List (String × Format) := [("text", .text), ("json", .json)]

def usageText : String :=
  "Usage: condexpr [OPTIONS] (eval EXPRESSION | check FILE | tokens EXPRESSION)\n"

def versionText : String := "condexpr, version 0.1.0\n"

def anyPath (word : String) : Except UsageFault Path :=
  let p := Path.read word
  if p.hasNull then .error (.raised ⟨"ValueError", Files.nullInPath⟩) else .ok p

def filePath (d : Disk) (word : String) : Except UsageFault Path := do
  let p ← anyPath word
  if word != "" && d.isDirectory p then .error .misused else .ok p

def valueOf? {α : Type} (w : Words) (name : String) (read : String → Except UsageFault α) :
    Except UsageFault (Option α) :=
  match w.value? name with
  | some word => (read word).map some
  | none => .ok none

def readWords (forms : List OptionForm) (mixed : Bool) (words : List String) :
    Except UsageFault Words := do
  let w ← Words.read forms mixed words
  if w.has "--help" then throw (.helped usageText)
  if w.has "--version" then throw (.helped versionText)
  pure w

def readGeneral (d : Disk) (words : List String) :
    Except UsageFault (General × Task × List String) := do
  let w ← readWords generalForms false words
  let config ← valueOf? w "--config" (filePath d)
  let level ← valueOf? w "--log-level" (choose levelChoices)
  let file ← valueOf? w "--log-file" anyPath
  match w.arguments with
  | name :: rest =>
    match taskNames.find? (·.1 == name) with
    | some e => pure (⟨config, level, file, w.has "--log-json"⟩, e.2, rest)
    | none => throw .misused
  | [] => throw .misused

def Manner.ofWords (w : Words) : Except UsageFault Manner := do
  let format ← valueOf? w "--format" (choose formatChoices)
  pure ⟨(w.values "--set").map String.toList, (w.value? "--caller").map String.toList,
    w.has "--async", format.getD .text⟩

def onlyArgument (w : Words) : Except UsageFault String :=
  match w.arguments with
  | [word] => .ok word
  | _ => .error .misused

def CommandLine.standard : CommandLine where
  general := readGeneral
  evaluate _ words := do
    let w ← readWords mannerForms true words
    let expression ← onlyArgument w
    pure (expression.toList, ← Manner.ofWords w)
  check d words := do
    let w ← readWords mannerForms true words
    let file ← onlyArgument w
    pure (← filePath d file, ← Manner.ofWords w)
  tokens _ words := do
    let w ← readWords [helpForm] true words
    pure (← onlyArgument w).toList

end Conditions.Command
