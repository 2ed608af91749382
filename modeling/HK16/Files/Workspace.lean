/-!
# What tools ask of their surroundings

A tool reads and writes files, looks at directories and prints text. The class
below names these requests, so that a tool is one definition that can run on a
disk held in memory and on the files of a computer.
-/

namespace HK16.Files

/-- Why a file or a directory cannot be used. -/
inductive Refusal
  /-- There is nothing under the path. -/
  | missing
  /-- A part of the path, or the whole, is not a directory. -/
  | notDirectory
  /-- The path leads to a directory. -/
  | isDirectory
  /-- The content is not UTF-8 text. -/
  | notText
  deriving Repr, DecidableEq

/-- The wording of the system. -/
def Refusal.message : Refusal → String
  | missing => "No such file or directory (os error 2)"
  | notDirectory => "Not a directory (os error 20)"
  | isDirectory => "Is a directory (os error 21)"
  | notText => "stream did not contain valid UTF-8"

/-- Whether the path could be opened and only its content was refused. -/
def Refusal.isContent : Refusal → Bool
  | isDirectory | notText => true
  | missing | notDirectory => false

/-- The requests of tools. -/
class Workspace (m : Type → Type) where
  /-- The text of a file. -/
  readText : String → m (Except Refusal String)
  /-- Whether the path leads to a directory. -/
  isDirectory : String → m Bool
  /-- The names in a directory, in any order. -/
  entries : String → m (Except Refusal (List String))
  /-- The name under which the path's target stands in its directory; the root
  has none. -/
  realName : String → m (Except Refusal (Option String))
  /-- Write a file, and tell whether that was possible. -/
  writeText : String → String → m Bool
  /-- Print a text. -/
  print : String → m Unit

end HK16.Files
