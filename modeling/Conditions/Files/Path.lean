/-!
# Paths

A path is a root and parts. Empty parts and single dots vanish when a path is read; two dots stay.
One slash or three and more in front make the ordinary root, exactly two a root of their own.
-/

set_option autoImplicit false

namespace Conditions.Files

structure Path where
  root : String
  parts : List String
  deriving DecidableEq, Repr, Inhabited

structure Homes where
  own : Path
  of? : String → Option Path

inductive HomeFault where
  | unknown
  | nullInName
  deriving DecidableEq, Repr

def nullInPath : String := "embedded null byte"

def HomeFault.message : HomeFault → String
  | .unknown => "Could not determine home directory."
  | .nullInName => nullInPath

def Homes.find (h : Homes) (word : String) : Except HomeFault Path :=
  match word.toList.drop 1 with
  | [] => .ok h.own
  | name =>
    if name.contains '\x00' then .error .nullInName
    else (h.of? (String.ofList name)).elim (.error .unknown) .ok

namespace Path

def pieces : List Char → List (List Char)
  | [] => [[]]
  | '/' :: rest => [] :: pieces rest
  | c :: rest =>
    match pieces rest with
    | [] => [[c]]
    | piece :: more => (c :: piece) :: more

def read (text : String) : Path :=
  let slashes := text.toList.takeWhile (· == '/')
  let root := match slashes.length with
    | 0 => ""
    | 2 => "//"
    | _ => "/"
  ⟨root, ((pieces text.toList).map String.ofList).filter fun p => p != "" && p != "."⟩

def text (p : Path) : String :=
  if p.root == "" && p.parts.isEmpty then "." else p.root ++ "/".intercalate p.parts

def isRelative (p : Path) : Bool := p.root == ""

def hasNull (p : Path) : Bool := p.parts.any fun part => part.toList.contains '\x00'

def startsAtHome (p : Path) : Bool :=
  p.isRelative && (p.parts.head?.elim false fun first => first.startsWith "~")

def expandHome (p : Path) (homes : Homes) : Except HomeFault Path :=
  match p.parts with
  | first :: rest =>
    if !p.startsAtHome then .ok p
    else match homes.find first with
      | .ok home =>
        if home.startsAtHome then .error .unknown else .ok ⟨home.root, home.parts ++ rest⟩
      | .error fault => .error fault
  | [] => .ok p

def ofHome (text : String) : Path :=
  match (text.toList.reverse.dropWhile (· == '/')).reverse with
  | [] => ⟨"/", []⟩
  | t => read (String.ofList t)

def parent (p : Path) : Path := { p with parts := p.parts.dropLast }

def absolute (p : Path) (here : List String) : Path :=
  let (root, parts) := if p.isRelative then ("/", here ++ p.parts) else (p.root, p.parts)
  ⟨root, (parts.foldl (fun done part => if part == ".." then done.tail else part :: done)
    []).reverse⟩

end Path

end Conditions.Files
