/-!
# Dictionaries

Keys with values, in the order in which the keys were first inserted. Inserting a present key
replaces its value and leaves its place.
-/

set_option autoImplicit false

namespace Conditions

abbrev Dictionary (α β : Type) := List (α × β)

namespace Dictionary

variable {α β : Type} [BEq α]

def find? (d : Dictionary α β) (key : α) : Option β := d.lookup key

def has (d : Dictionary α β) (key : α) : Bool := d.any fun e => e.1 == key

def insert (d : Dictionary α β) (key : α) (value : β) : Dictionary α β :=
  match d with
  | [] => [(key, value)]
  | (k, v) :: rest => if k == key then (k, value) :: rest else (k, v) :: insert rest key value

def erase (d : Dictionary α β) (key : α) : Dictionary α β := d.filter fun e => !(e.1 == key)

def insertAll (d more : Dictionary α β) : Dictionary α β :=
  more.foldl (fun acc e => insert acc e.1 e.2) d

def ofList (entries : List (α × β)) : Dictionary α β := insertAll [] entries

def keys (d : Dictionary α β) : List α := d.map (·.1)

end Dictionary

end Conditions
