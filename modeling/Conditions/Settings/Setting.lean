import Conditions.Files.Path
import Conditions.Journal.Entry
import Conditions.Number.Shortest
import Conditions.Toml.Value
import Conditions.Json.Writer

/-!
# Settings

The value of a setting comes from a file, from the environment or from a caller. A file may hold a
value of any type for it; what is wrong with a value is found when the configuration is made.
-/

set_option autoImplicit false

namespace Conditions.Settings
open Files (Path)

inductive Setting where
  | none
  | path (p : Path)
  | value (v : Toml.Value)
  deriving Repr, Inhabited

namespace Setting

def int (n : Int) : Setting := .value (.int n)
def string (s : String) : Setting := .value (.string s)
def bool (b : Bool) : Setting := .value (.bool b)

def kind : Setting → String
  | .none => "NoneType"
  | .path _ => "PosixPath"
  | .value (.string _) => "str"
  | .value (.int _) => "int"
  | .value (.float _) => "float"
  | .value (.bool _) => "bool"
  | .value (.array _) => "list"
  | .value (.table _) => "dict"
  | .value (.moment .date) => "datetime.date"
  | .value (.moment .dateTime) => "datetime.datetime"
  | .value (.moment .time) => "datetime.time"

def rank? : Setting → Option (Int ⊕ Binary64)
  | .value (.int n) => some (.inl n)
  | .value (.bool b) => some (.inl (if b then 1 else 0))
  | .value (.float x) => some (.inr x)
  | _ => Option.none

def below (x : Int ⊕ Binary64) (bound : Int) : Bool :=
  match x with
  | .inl n => n < bound
  | .inr x => x.lt (.ofInt bound)

def above (x : Int ⊕ Binary64) (bound : Int) : Bool :=
  match x with
  | .inl n => bound < n
  | .inr x => (Binary64.ofInt bound).lt x

def isTruthy : Setting → Bool
  | .none => false
  | .path _ => true
  | .value (.string s) => s != ""
  | .value (.int n) => n != 0
  | .value (.float x) => x.code != 0
  | .value (.bool b) => b
  | .value (.array elements) => !elements.isEmpty
  | .value (.table members) => !members.isEmpty
  | .value (.moment _) => true

def numberText : Int ⊕ Binary64 → String
  | .inl n => toString n
  | .inr x => String.ofList (Number.plain.text x)

def shown : Setting → String
  | .value (.bool b) => if b then "True" else "False"
  | s => (s.rank?.map numberText).getD ""

end Setting

inductive SettingFault where
  | tooFewWorkers (got : Setting)
  | negativeCache (got : Setting)
  | unordered (kind : String)
  | unknownLevel (got : String)
  | unknownFormat (got : String)
  | notText (kind : String)
  deriving Repr

def choices (words : List String) : String :=
  let quoted := words.map fun w => s!"'{w}'"
  "\x7b" ++ ", ".intercalate quoted ++ "\x7d"

def levels : List String := ["debug", "error", "info", "warning"]

def formats : List String := ["json", "text"]

def SettingFault.message : SettingFault → String
  | .tooFewWorkers got => s!"max_workers must be at least 1, got {got.shown}"
  | .negativeCache got => s!"cache_size must be non-negative, got {got.shown}"
  | .unordered kind => s!"'<' not supported between instances of '{kind}' and 'int'"
  | .unknownLevel got => s!"level must be one of {choices levels}, got {got}"
  | .unknownFormat got => s!"format must be one of {choices formats}, got {got}"
  | .notText kind => s!"'{kind}' object has no attribute 'lower'"

abbrev Fields := Dictionary String Setting

end Conditions.Settings
