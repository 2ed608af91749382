import HK16.Text.Lines

/-!
# Options of command lines

A command line holds options and at most one plain argument. An option has a
long name and may have a short one. Short flags can be written together, and the
value of an option stands behind an equals sign, directly behind the short name,
or as the next argument, which then may not look like an option. Behind a
double dash every argument is plain. Options are given once, unless they may
repeat. Arguments are read from left to right, and the first request for help or
for the version, or the first mistake, settles the outcome.
-/

namespace HK16.Console

/-- What an option is for. -/
inductive Role
  /-- It is given or not. -/
  | flag
  /-- It has a value, which must pass the check. -/
  | value (accepts : String → Bool)
  /-- It has a value, which must pass the check, and may be given again. -/
  | values (accepts : String → Bool)
  /-- It asks for the version. -/
  | version
  /-- It asks for help. -/
  | help

/-- An option that a tool knows. -/
structure OptionRule where
  /-- The long name. -/
  long : String
  /-- The short name. -/
  short : Option Char
  /-- What the option is for. -/
  role : Role

/-- What a command line asks for. -/
structure Request where
  /-- The options in order, with their values; flags have an empty one. -/
  given : List (String × String)
  /-- The plain argument. -/
  plain : Option String
  deriving Repr, DecidableEq

namespace Request

/-- Whether an option is given. -/
def has (request : Request) (long : String) : Bool := request.given.any (·.1 == long)

/-- The value of an option. -/
def value? (request : Request) (long : String) : Option String := request.given.lookup long

/-- All values of an option, in order. -/
def values (request : Request) (long : String) : List String :=
  (request.given.filter (·.1 == long)).map Prod.snd

/-- Add an option. -/
def add (request : Request) (long value : String) : Request :=
  { request with given := request.given ++ [(long, value)] }

end Request

/-- How the reading of a command line ends early. -/
inductive Early
  /-- The command line is wrong. -/
  | wrong
  /-- The version is asked for. -/
  | version
  /-- Help is asked for. -/
  | help
  deriving Repr, DecidableEq

/-- The options that every tool knows. -/
def commonRules : List OptionRule := [⟨"help", some 'h', .help⟩, ⟨"version", some 'V', .version⟩]

/-- Add an option without a value. -/
def addFlag (request : Request) (rule : OptionRule) : Except Early Request :=
  match rule.role with
  | .version => .error .version
  | .help => .error .help
  | .flag => if request.has rule.long then .error .wrong else .ok (request.add rule.long "")
  | _ => .error .wrong

/-- Add an option with its value. -/
def addValue (request : Request) (rule : OptionRule) (value : String) : Except Early Request :=
  match rule.role with
  | .value accepts =>
    if request.has rule.long || !accepts value then .error .wrong
    else .ok (request.add rule.long value)
  | .values accepts => if accepts value then .ok (request.add rule.long value) else .error .wrong
  | _ => .error .wrong

/-- Add the plain argument, of which there is only one. -/
def addPlain (request : Request) (argument : String) : Except Early Request :=
  if request.plain.isSome then .error .wrong else .ok { request with plain := some argument }

/-- Whether an option takes a value. -/
def OptionRule.takesValue (rule : OptionRule) : Bool :=
  match rule.role with
  | .value _ | .values _ => true
  | _ => false

/-- Read short names that are written together. The second part of the result
is the option that still needs its value. -/
def readShorts (rules : List OptionRule) (request : Request) :
    List Char → Except Early (Request × Option OptionRule)
  | [] => .ok (request, none)
  | c :: letters =>
    match rules.find? (·.short == some c) with
    | none => .error .wrong
    | some rule =>
      if rule.takesValue then
        match letters with
        | [] => .ok (request, some rule)
        | '=' :: value | value => (addValue request rule (String.ofList value)).map (·, none)
      else
        match addFlag request rule with
        | .error early => .error early
        | .ok request => readShorts rules request letters

/-- Read a long name, with a value behind an equals sign if there is one. -/
def readLong (rules : List OptionRule) (request : Request) (text : List Char) :
    Except Early (Request × Option OptionRule) :=
  let (name, value) := match Text.cut '=' text with
    | some (name, value) => (name, some (String.ofList value))
    | none => (text, none)
  match rules.find? (·.long == String.ofList name), value with
  | none, _ => .error .wrong
  | some rule, some value => (addValue request rule value).map (·, none)
  | some rule, none =>
    if rule.takesValue then .ok (request, some rule) else (addFlag request rule).map (·, none)

/-- Read arguments. `pending` is an option that needs its value, and
`plainOnly` tells that a double dash has been read. -/
def readFrom (rules : List OptionRule) (request : Request) (pending : Option OptionRule)
    (plainOnly : Bool) : List String → Except Early Request
  | [] => if pending.isSome then .error .wrong else .ok request
  | argument :: arguments =>
    match pending, plainOnly, argument.toList with
    | some _, _, '-' :: _ :: _ => .error .wrong
    | some rule, _, _ =>
      match addValue request rule argument with
      | .error early => .error early
      | .ok request => readFrom rules request none plainOnly arguments
    | none, false, ['-', '-'] => readFrom rules request none true arguments
    | none, false, '-' :: '-' :: text =>
      match readLong rules request text with
      | .error early => .error early
      | .ok (request, pending) => readFrom rules request pending false arguments
    | none, false, '-' :: c :: letters =>
      match readShorts rules request (c :: letters) with
      | .error early => .error early
      | .ok (request, pending) => readFrom rules request pending false arguments
    | none, _, _ =>
      match addPlain request argument with
      | .error early => .error early
      | .ok request => readFrom rules request none plainOnly arguments

/-- Read a command line under the rules of a tool and the common ones. -/
def readOptions (rules : List OptionRule) (arguments : List String) : Except Early Request :=
  readFrom (rules ++ commonRules) ⟨[], none⟩ none false arguments

end HK16.Console
