import HK16.Settings.Node
import HK16.Settings.Scan
import Std.Data.TreeMap

/-!
# Reading settings documents

Tokens make up nodes in the indented style, with a token at the end of each
list and map, and in the bracketed style, with commas; the bracketed style may
stand inside the indented one. An indented list may also stand at the column of
the map around it, without a token at its end. Keys and values may be absent.

A text holds one document or none. Names of nodes are replaced by numbers. A
number is how many names there were when the node started, so that giving a name
again makes room for a later name to take its place.
-/

namespace HK16.Settings

/-- What handles stand for. -/
abbrev Handles := Std.TreeMap (List Char) (List Char)

/-- The state of reading. -/
structure Reading where
  /-- The tokens to be read. -/
  tokens : List Token
  /-- The numbers of names. -/
  names : Std.TreeMap (List Char) Nat

/-- Reading that can fail. -/
abbrev Read := StateT Reading Option

namespace Read

/-- The next token. -/
def peek : Read (Option Token) := do return (← get).tokens.head?

/-- Go on behind the next token. -/
def drop : Read Unit := modify fun reading => { reading with tokens := reading.tokens.drop 1 }

/-- Give a name to the node that starts here. -/
def register (name : List Char) : Read Nat := do
  let number := (← get).names.size
  modify fun reading => { reading with names := reading.names.insert name number }
  return number

/-- The number of a name. -/
def number (name : List Char) : Read Nat := do
  match (← get).names[name]? with
  | some number => return number
  | none => failure

/-- Write a tag in full. -/
def resolve (handles : Handles) (handle suffix : List Char) : Read (List Char) :=
  if handle.isEmpty then return suffix
  else
    match handles[handle]? with
    | some stem => return stem ++ suffix
    | none => failure

/-- Read an anchor, if one is here. -/
def anchor : Read (Option Nat) := do
  match ← peek with
  | some (.anchor name) => drop; return some (← register name)
  | _ => return none

/-- Read a tag, if one is here. -/
def tag (handles : Handles) : Read (Option (List Char)) := do
  match ← peek with
  | some (.tag handle suffix) => drop; return some (← resolve handles handle suffix)
  | _ => return none

/-- Read an anchor and a tag, in any order. -/
def properties (handles : Handles) : Read Properties := do
  match ← anchor with
  | some number => return ⟨some number, ← tag handles⟩
  | none =>
    let tag ← tag handles
    return ⟨← if tag.isSome then anchor else pure none, tag⟩

mutual

/-- Read a node. Indented collections are only read if `indented` holds, and a
list without a token at its end only if `open_` does. -/
def node (handles : Handles) : Nat → Bool → Bool → Read Node
  | 0, _, _ => failure
  | fuel + 1, indented, open_ => do
    match ← peek with
    | some (.reference name) => drop; return .reference (← number name)
    | _ =>
      let properties ← properties handles
      match ← peek, indented, open_ with
      | some .dash, _, true => return .list properties (← openItems handles fuel [])
      | some (.scalar text style), _, _ =>
        drop
        return .scalar properties style (String.ofList text)
      | some .listOpen, _, _ =>
        drop
        return .list properties (← flowItems handles fuel true [])
      | some .mapOpen, _, _ =>
        drop
        return .map properties (← flowPairs handles fuel true [])
      | some .indentedList, true, _ =>
        drop
        return .list properties (← indentedItems handles fuel [])
      | some .indentedMap, true, _ =>
        drop
        return .map properties (← indentedPairs handles fuel [])
      | _, _, _ =>
        if properties.anchor.isSome || properties.tag.isSome then
          return .scalar properties .plain ""
        else failure

/-- Read the items of an indented list up to its end. -/
def indentedItems (handles : Handles) : Nat → List Node → Read (List Node)
  | 0, _ => failure
  | fuel + 1, done => do
    match ← peek with
    | some .dash =>
      drop
      match ← peek with
      | some .dash | some .dedent => indentedItems handles fuel (.absent :: done)
      | _ => indentedItems handles fuel ((← node handles fuel true false) :: done)
    | some .dedent => drop; return done.reverse
    | _ => failure

/-- Read the items of a list at the column of the map around it. -/
def openItems (handles : Handles) : Nat → List Node → Read (List Node)
  | 0, _ => failure
  | fuel + 1, done => do
    match ← peek with
    | some .dash =>
      drop
      match ← peek with
      | some .dash | some .key | some .value | some .dedent =>
        openItems handles fuel (.absent :: done)
      | _ => openItems handles fuel ((← node handles fuel true false) :: done)
    | _ => return done.reverse

/-- Read a key or a value of an indented map, which may be absent. -/
def indentedPart (handles : Handles) : Nat → Read Node
  | 0 => failure
  | fuel + 1 => do
    match ← peek with
    | some .key | some .value | some .dedent => return .absent
    | _ => node handles fuel true true

/-- Read the keys and values of an indented map up to its end. -/
def indentedPairs (handles : Handles) : Nat → List (Node × Node) → Read (List (Node × Node))
  | 0, _ => failure
  | fuel + 1, done => do
    match ← peek with
    | some .key =>
      drop
      let key ← indentedPart handles fuel
      match ← peek with
      | some .value =>
        drop
        indentedPairs handles fuel ((key, ← indentedPart handles fuel) :: done)
      | _ => indentedPairs handles fuel ((key, .absent) :: done)
    | some .dedent => drop; return done.reverse
    | _ => failure

/-- Read the value of a pair between brackets of the given end, if it is there. -/
def flowValue (handles : Handles) : Nat → Token → Read Node
  | 0, _ => failure
  | fuel + 1, close => do
    match ← peek with
    | some .value =>
      drop
      match ← peek with
      | some .comma => return .absent
      | token => if token = some close then return .absent else node handles fuel false false
    | _ => return .absent

/-- Read the pair behind the mark of a key in a bracketed list. If the key is
absent, the token in its place is dropped. -/
def flowPair (handles : Handles) : Nat → Read Node
  | 0 => failure
  | fuel + 1 => do
    let key ← match ← peek with
      | some .value | some .comma | some .listClose => drop; pure .absent
      | _ => node handles fuel false false
    return .map ⟨none, none⟩ [(key, ← flowValue handles fuel .listClose)]

/-- Read the items of a bracketed list up to its end. -/
def flowItems (handles : Handles) : Nat → Bool → List Node → Read (List Node)
  | 0, _, _ => failure
  | fuel + 1, first, done => do
    match ← peek, first with
    | some .listClose, _ => drop; return done.reverse
    | some .comma, false => drop; flowItem handles fuel done
    | _, false => failure
    | _, true => flowItem handles fuel done

/-- Read an item of a bracketed list, or its end. -/
def flowItem (handles : Handles) : Nat → List Node → Read (List Node)
  | 0, _ => failure
  | fuel + 1, done => do
    match ← peek with
    | some .listClose => drop; return done.reverse
    | some .key => drop; flowItems handles fuel false ((← flowPair handles fuel) :: done)
    | _ => flowItems handles fuel false ((← node handles fuel false false) :: done)

/-- Read the keys and values of a bracketed map up to its end. -/
def flowPairs (handles : Handles) : Nat → Bool → List (Node × Node) → Read (List (Node × Node))
  | 0, _, _ => failure
  | fuel + 1, first, done => do
    match ← peek, first with
    | some .mapClose, _ => drop; return done.reverse
    | some .comma, false => drop; flowEntry handles fuel done
    | _, false => failure
    | _, true => flowEntry handles fuel done

/-- Read a key and a value of a bracketed map, or its end. Without the mark of a
key there is no value. -/
def flowEntry (handles : Handles) : Nat → List (Node × Node) → Read (List (Node × Node))
  | 0, _ => failure
  | fuel + 1, done => do
    match ← peek with
    | some .mapClose => drop; return done.reverse
    | some .key =>
      drop
      let key ← match ← peek with
        | some .value | some .comma | some .mapClose => pure .absent
        | _ => node handles fuel false false
      flowPairs handles fuel false ((key, ← flowValue handles fuel .mapClose) :: done)
    | _ => flowPairs handles fuel false ((← node handles fuel false false, .absent) :: done)

end

/-- Add the handles that need no directive, unless they have one. -/
def withStandard (handles : Handles) : Handles :=
  (handles.insertIfNew ['!'] ['!']).insertIfNew ['!', '!'] Node.standardStem.toList

/-- Read the directives of a document. There may be one version, which must be
1.1 or 1.2, and one directive for each handle. -/
def directives (version : Bool) (handles : Handles) : List Token → Option (Handles × List Token)
  | .version major minor :: tokens =>
    if version || major ≠ 1 || (minor ≠ 1 && minor ≠ 2) then none
    else directives true handles tokens
  | .handle name stem :: tokens =>
    if handles.contains name then none
    else directives version (handles.insert name stem) tokens
  | tokens => some (withStandard handles, tokens)

/-- Read the content of a document that started with its mark. -/
def content (handles : Handles) (fuel : Nat) : Read Node := do
  match ← peek with
  | none | some (.version _ _) | some (.handle _ _) | some .documentStart | some .documentEnd =>
    return .absent
  | _ => node handles fuel true false

end Read

/-- A document. -/
structure Document where
  /-- The node that holds all others. -/
  root : Node
  /-- The nodes under their numbers. -/
  anchors : Node.Numbered
  /-- The number of marks of the document. -/
  size : Nat

namespace Document

/-- The document of a node. -/
def ofRoot (root : Node) : Document := ⟨root, root.collect ∅, root.size⟩

/-- Read a document from tokens. Directives need the mark of a document's start,
and behind the document only marks of its end may follow. -/
def ofTokens? (tokens : List Token) : Option Document := do
  let fuel := 4 * tokens.length + 4
  let (root, reading) ← match tokens with
    | [] => some (.absent, ⟨[], ∅⟩)
    | .version _ _ :: _ | .handle _ _ :: _ | .documentStart :: _ =>
      match Read.directives false ∅ tokens with
      | some (handles, .documentStart :: tokens) => (Read.content handles fuel).run ⟨tokens, ∅⟩
      | _ => none
    | tokens => (Read.node (Read.withStandard ∅) fuel true false).run ⟨tokens, ∅⟩
  if reading.tokens.all (· == .documentEnd) then return ofRoot root else none

/-- Read the document of a text. -/
def read? (text : String) : Option Document := (tokens? text.toList).bind ofTokens?

/-- How many references may be followed for each mark of a document. -/
def followMax : Nat := 100

/-- Values from a document, with the number of references that were followed. -/
abbrev Decode := StateT Nat Option

/-- The node itself, or the one to which it refers. -/
def follow (document : Document) (node : Node) : Decode Node := do
  match node with
  | .reference number =>
    let followed := (← get) + 1
    if followMax * document.size < followed then failure
    else
      set followed
      match document.anchors[number]? with
      | some node => return node
      | none => failure
  | node => return node

/-- A value of a node, after following a reference. -/
def decode {α : Type} (document : Document) (view : Node → Option α) (node : Node) : Decode α := do
  match view (← document.follow node) with
  | some value => return value
  | none => failure

end Document

end HK16.Settings
