import HK16.Settings.Scalar
import Std.Data.TreeMap

/-!
# Settings documents

A settings document is a tree of scalars, lists and maps. A node can have a
number, under which other places refer to it. What a scalar means depends on
where it stands: only a plain one, or a literal block that is tagged
accordingly, can be a number or a truth value, and a plain empty one also stands
for an empty list or map.
-/

namespace HK16.Settings

/-- What stands in front of a node. -/
structure Properties where
  /-- The number of the node. -/
  anchor : Option Nat
  /-- The tag of the node. -/
  tag : Option (List Char)

/-- A part of a settings document. -/
inductive Node
  /-- A piece of text. -/
  | scalar (properties : Properties) (style : Style) (text : String)
  /-- A list. -/
  | list (properties : Properties) (items : List Node)
  /-- A map with its keys and values in order; keys may repeat. -/
  | map (properties : Properties) (pairs : List (Node × Node))
  /-- The node with the given number. -/
  | reference (anchor : Nat)

namespace Node

/-- A value that is not written. -/
def absent : Node := scalar ⟨none, none⟩ .plain ""

mutual

/-- The number of marks of a node: one for a scalar or a reference, and two for
a list or a map besides those inside. -/
def size : Node → Nat
  | scalar _ _ _ | reference _ => 1
  | list _ items => sizeItems items + 2
  | map _ pairs => sizePairs pairs + 2

/-- The number of marks of nodes. -/
def sizeItems : List Node → Nat
  | [] => 0
  | item :: items => size item + sizeItems items

/-- The number of marks of keys and values. -/
def sizePairs : List (Node × Node) → Nat
  | [] => 0
  | (key, value) :: pairs => size key + size value + sizePairs pairs

end

/-- Nodes under their numbers. -/
abbrev Numbered := Std.TreeMap Nat Node

/-- Add a node under its number, if it has one. -/
def enter (found : Numbered) (node : Node) (properties : Properties) : Numbered :=
  match properties.anchor with
  | some number => found.insert number node
  | none => found

mutual

/-- Add the nodes with numbers in the order in which they start. Of several nodes
with one number, the one that starts last counts. -/
def collect (found : Numbered) : Node → Numbered
  | scalar properties style text => enter found (scalar properties style text) properties
  | list properties items => collectItems (enter found (list properties items) properties) items
  | map properties pairs => collectPairs (enter found (map properties pairs) properties) pairs
  | reference _ => found

/-- Add the nodes with numbers among nodes. -/
def collectItems (found : Numbered) : List Node → Numbered
  | [] => found
  | item :: items => collectItems (collect found item) items

/-- Add the nodes with numbers among keys and values. -/
def collectPairs (found : Numbered) : List (Node × Node) → Numbered
  | [] => found
  | (key, value) :: pairs => collectPairs (collect (collect found key) value) pairs

end

/-- What the handle with two exclamation marks stands for. -/
def standardStem : String := "tag:yaml.org,2002:"

/-- The text of a scalar that may be a number or a truth value: it is plain, or a
literal block with the standard tag of that name. -/
def typedText? (name : String) : Node → Option String
  | scalar _ .plain text => some text
  | scalar properties .literal text =>
    if properties.tag = some (standardStem ++ name).toList then some text else none
  | _ => none

/-- The value of a digit of a base up to sixteen. -/
def digit? (base : Nat) (c : Char) : Option Nat := (hexDigit? c).filter (· < base)

/-- The number that digits of a base denote; there must be at least one. -/
def digits? (base : Nat) (digits : List Char) : Option Nat :=
  if digits.isEmpty then none
  else digits.foldlM (fun value c => (digit? base c).map (value * base + ·)) 0

/-- A whole number: decimal digits without leading zeros, or digits behind one
of the marks `0x`, `0o` and `0b`, with an optional plus sign in front. -/
def naturalText? (text : List Char) : Option Nat :=
  let unsigned := match text with
    | '+' :: rest => rest
    | rest => rest
  match unsigned with
  | '0' :: 'x' :: digits => digits? 16 digits
  | '0' :: 'o' :: digits => digits? 8 digits
  | '0' :: 'b' :: digits => digits? 2 digits
  | ['0'] => some 0
  | '0' :: _ => none
  | digits => digits? 10 digits

/-- The whole number of a node. -/
def natural? (node : Node) : Option Nat :=
  (node.typedText? "int").bind fun text => naturalText? text.toList

/-- The truth value of a word. -/
def booleanText? : String → Option Bool
  | "true" | "True" | "TRUE" => some true
  | "false" | "False" | "FALSE" => some false
  | _ => none

/-- The truth value of a node. -/
def boolean? (node : Node) : Option Bool := (node.typedText? "bool").bind booleanText?

/-- The text of a node. -/
def text? : Node → Option String
  | scalar _ _ text => some text
  | _ => none

/-- The items of a node. -/
def items? : Node → Option (List Node)
  | list _ items => some items
  | scalar _ .plain "" => some []
  | _ => none

/-- The keys and values of a node. -/
def pairs? : Node → Option (List (Node × Node))
  | map _ pairs => some pairs
  | scalar _ .plain "" => some []
  | _ => none

end Node

end HK16.Settings
