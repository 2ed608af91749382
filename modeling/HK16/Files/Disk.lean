import HK16.Files.Path
import HK16.Files.Workspace

/-!
# Disks in memory

A disk maps places to directories and files. A place is the list of names on
the way from the root. Paths start at the root or in the working directory and
are walked part by part, so that every part but the last must lead to a
directory that exists, the step to the parent included.
-/

namespace HK16.Files

/-- What stands at a place. -/
inductive Node
  /-- A directory. -/
  | directory
  /-- A file with its content. -/
  | file (content : ByteArray)

/-- The way from the root to a file or a directory. -/
abbrev Place := List String

/-- The files and directories of a computer, and what was printed. -/
structure Disk where
  /-- What stands where. The root is not listed. -/
  nodes : List (Place × Node)
  /-- The working directory. -/
  here : Place
  /-- What has been printed. -/
  printed : String

namespace Disk

/-- What stands at a place; the root is a directory. -/
def node? (disk : Disk) (place : Place) : Option Node :=
  if place.isEmpty then some .directory else disk.nodes.lookup place

/-- Whether a directory stands at a place. -/
def hasDirectory (disk : Disk) (place : Place) : Bool :=
  match disk.node? place with
  | some .directory => true
  | _ => false

/-- Put a node at a place. -/
def put (disk : Disk) (place : Place) (node : Node) : Disk :=
  { disk with nodes := (disk.nodes.filter (·.1 ≠ place)) ++ [(place, node)] }

/-- Make a directory with its parents, starting at one that exists. Places that
are taken stay as they are. -/
def makeDirectory (disk : Disk) (start : Place) : List String → Disk
  | [] => disk
  | name :: names =>
    let place := start ++ [name]
    let disk := if (disk.node? place).isSome then disk else disk.put place .directory
    makeDirectory disk place names

/-- A disk whose working directory exists and is empty. -/
def empty (here : Place) : Disk := (Disk.mk [] here "").makeDirectory [] here

/-- Walk the parts of a path from a place. -/
def walk (disk : Disk) (place : Place) : List String → Except Refusal Place
  | [] => .ok place
  | part :: parts =>
    match disk.node? place with
    | some .directory =>
      if part = "" ∨ part = "." then walk disk place parts
      else if part = ".." then walk disk place.dropLast parts
      else if (disk.node? (place ++ [part])).isSome then walk disk (place ++ [part]) parts
      else .error .missing
    | some (.file _) => .error .notDirectory
    | none => .error .missing

/-- The place where paths of this form start. -/
def startOf (disk : Disk) (path : String) : Place :=
  if path.toList.head? = some '/' then [] else disk.here

/-- The place to which a path leads. -/
def resolve (disk : Disk) (path : String) : Except Refusal Place :=
  if path = "" then .error .missing else disk.walk (disk.startOf path) (Path.split path)

/-- The text of a file. -/
def readText (disk : Disk) (path : String) : Except Refusal String := do
  let place ← disk.resolve path
  match disk.node? place with
  | some (.file content) =>
    match String.fromUTF8? content with
    | some text => .ok text
    | none => .error .notText
  | some .directory => .error .isDirectory
  | none => .error .missing

/-- Whether a path leads to a directory. -/
def isDirectory (disk : Disk) (path : String) : Bool :=
  match disk.resolve path with
  | .ok place => disk.hasDirectory place
  | .error _ => false

/-- The names in a directory. -/
def entries (disk : Disk) (path : String) : Except Refusal (List String) := do
  let place ← disk.resolve path
  match disk.node? place with
  | some .directory =>
    .ok (disk.nodes.filterMap fun (other, _) =>
      if other.dropLast = place then other.getLast? else none)
  | some (.file _) => .error .notDirectory
  | none => .error .missing

/-- The last name of the place to which a path leads. -/
def realName (disk : Disk) (path : String) : Except Refusal (Option String) :=
  (disk.resolve path).map List.getLast?

/-- Write a file. Its directory must exist, and no directory may stand in its
place. -/
def writeText (disk : Disk) (path text : String) : Option Disk :=
  let parts := Path.split path
  match parts.getLast?, disk.walk (disk.startOf path) parts.dropLast with
  | some name, .ok directory =>
    let place := directory ++ [name]
    if name = "" ∨ name = "." ∨ name = ".." ∨ disk.hasDirectory directory = false ∨
        disk.hasDirectory place = true then none
    else some (disk.put place (.file text.toUTF8))
  | _, _ => none

/-- The files below the working directory, under their paths from there. -/
def files (disk : Disk) : List (String × ByteArray) :=
  disk.nodes.filterMap fun (place, node) =>
    match node with
    | .file content =>
      if disk.here.isPrefixOf place then
        some ("/".intercalate (place.drop disk.here.length), content)
      else none
    | .directory => none

end Disk

instance : Workspace (StateM Disk) where
  readText path := do return (← get).readText path
  isDirectory path := do return (← get).isDirectory path
  entries path := do return (← get).entries path
  realName path := do return (← get).realName path
  writeText path text := do
    match (← get).writeText path text with
    | some disk => set disk; return true
    | none => return false
  print text := modify fun disk => { disk with printed := disk.printed ++ text }

end HK16.Files
