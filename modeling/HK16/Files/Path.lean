/-!
# Paths

A path is a text whose parts stand between slashes. Empty parts and single dots
do not count. The last part is the file name, unless it is the step to the
parent directory. An extension follows the last dot of a file name; a dot at its
very start does not begin one.
-/

namespace HK16.Files.Path

/-- Divide a text at every slash. The second argument holds the part that is
being read, last character first. -/
def splitFrom : List Char → List Char → List (List Char)
  | [], part => [part.reverse]
  | c :: text, part =>
    if c = '/' then part.reverse :: splitFrom text [] else splitFrom text (c :: part)

/-- The texts between the slashes of a path. -/
def split (path : String) : List String := (splitFrom path.toList []).map String.ofList

/-- The parts that count. -/
def parts (path : String) : List String :=
  (split path).filter fun part => part ≠ "" ∧ part ≠ "."

/-- The last part, if it is a name. -/
def fileName? (path : String) : Option String :=
  (parts path).getLast?.filter (· ≠ "..")

/-- Divide a file name at its last dot into stem and extension. Without a dot, or
with no other dot than one at the start, there is no extension. -/
def splitName (name : String) : String × Option String :=
  let reversed := name.toList.reverse
  let extension := reversed.takeWhile (· ≠ '.')
  match reversed.dropWhile (· ≠ '.') with
  | _ :: stem =>
    if stem.isEmpty then (name, none)
    else (String.ofList stem.reverse, some (String.ofList extension.reverse))
  | [] => (name, none)

/-- The extension of the file name. -/
def extension? (path : String) : Option String :=
  (fileName? path).bind fun name => (splitName name).2

/-- The file name without its extension. -/
def stem? (path : String) : Option String := (fileName? path).map fun name => (splitName name).1

/-- Drop the slashes and single dots behind the last part that counts, from a
path that is held last character first. -/
def dropTail : List Char → List Char
  | '/' :: rest => dropTail rest
  | '.' :: '/' :: rest => dropTail rest
  | rest => rest

/-- Put an extension behind the stem of the file name. What stands in front of
the file name stays, what stands behind it goes. A path without a file name
stays as it is. -/
def putExtension (path extension : String) : String :=
  match fileName? path with
  | none => path
  | some name =>
    let bare := (dropTail path.toList.reverse).reverse
    let directory := bare.take (bare.length - name.length)
    String.ofList directory ++ (splitName name).1 ++ "." ++ extension

/-- Take as many characters off the end of a path as its extension has. -/
def cutExtension (path : String) : String :=
  match extension? path with
  | none => path
  | some extension => String.ofList (path.toList.take (path.length - extension.length))

/-- Give the file name another extension. The old one is cut off first, so that
a name which is then only the step to the parent directory gets none. -/
def withExtension (path extension : String) : String := putExtension (cutExtension path) extension

/-- The path of a name in a directory. -/
def join (directory name : String) : String :=
  if directory = "" ∨ directory.toList.getLast? = some '/' then directory ++ name
  else directory ++ "/" ++ name

/-- The path without a given ending, if it has it. -/
def dropSuffix (path ending : String) : String :=
  let text := path.toList
  let tail := ending.toList
  if tail.isSuffixOf text then String.ofList (text.take (text.length - tail.length)) else path

end HK16.Files.Path
