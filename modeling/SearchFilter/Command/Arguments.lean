import SearchFilter.Config

namespace SearchFilter

/-- What the command line is asked to do. -/
inductive Command where
  /-- Reads a filter text. -/
  | parse (filter : String)
  /-- Reads the hexadecimal digits of an encoded filter. -/
  | decode (digits : String)
  /-- Evaluates a filter text against the record in a file. -/
  | evaluate (filter record : String) (ignoreCase : Bool)
  deriving DecidableEq, Repr

/-- A command with the general settings. -/
structure Invocation where
  config : Option String
  output : Option OutputFormat
  debug : Bool
  command : Command
  deriving DecidableEq, Repr

namespace Arguments

/-- The names of the commands. -/
inductive Name where
  | parse
  | decode
  | evaluate
  deriving DecidableEq, Repr

/-- The command of this name. -/
def Name.ofText? : String → Option Name
  | "parse" => some .parse
  | "decode" => some .decode
  | "match" => some .evaluate
  | _ => none

/-- The settings that take a value. -/
inductive Setting where
  | config
  | output
  | record
  deriving DecidableEq, Repr

namespace Setting

/-- The setting with this long form. -/
def ofLong? : String → Option Setting
  | "config" => some .config
  | "output" => some .output
  | "record" => some .record
  | _ => none

/-- The setting with this short form. -/
def ofShort? : Char → Option Setting
  | 'c' => some .config
  | 'o' => some .output
  | 'r' => some .record
  | _ => none

/-- Whether a setting may stand where `command`, if any, came before. -/
def isAllowed (command : Option Name) : Setting → Bool
  | .config | .output => true
  | .record => command == some .evaluate

/-- Whether a setting may have this value. -/
def accepts : Setting → String → Bool
  | .config, value | .record, value => !value.isEmpty
  | .output, value => (OutputFormat.ofName? value).isSome

end Setting

/-- The settings that are on or off. -/
inductive Switch where
  | debug
  | ignoreCase
  deriving DecidableEq, Repr

namespace Switch

/-- The switch with this long form. -/
def ofLong? : String → Option Switch
  | "debug" => some .debug
  | "ignore-case" => some .ignoreCase
  | _ => none

/-- The switch with this short form. -/
def ofShort? : Char → Option Switch
  | 'd' => some .debug
  | 'i' => some .ignoreCase
  | _ => none

/-- Whether a switch may stand where `command`, if any, came before. -/
def isAllowed (command : Option Name) : Switch → Bool
  | .debug => true
  | .ignoreCase => command == some .evaluate

end Switch

/-- What was given before the command, or behind it. -/
structure Given where
  values : List (Setting × String)
  switches : List Switch
  deriving DecidableEq, Repr

namespace Given

/-- Nothing yet. -/
def nothing : Given :=
  { values := [], switches := [] }

/-- The value of a setting. -/
def value? (g : Given) (s : Setting) : Option String :=
  (g.values.find? (·.1 == s)).map (·.2)

/-- Adds the value of a setting that has none. -/
def addValue (g : Given) (s : Setting) (value : String) : Option Given :=
  if (g.value? s).isNone && s.accepts value then
    some { g with values := (s, value) :: g.values }
  else none

/-- Adds a switch that is not on. -/
def addSwitch (g : Given) (s : Switch) : Option Given :=
  if s ∈ g.switches then none else some { g with switches := s :: g.switches }

end Given

/-- What was read so far: the part before the command, the command, the part behind it. -/
structure State where
  before : Given
  command : Option Name
  behind : Given
  operands : List String
  deriving DecidableEq, Repr

namespace State

/-- Before the first argument. -/
def start : State :=
  { before := .nothing, command := none, behind := .nothing, operands := [] }

/-- Changes the part that is being read. -/
def update (st : State) (f : Given → Option Given) : Option State :=
  match st.command with
  | none => (f st.before).map fun g => { st with before := g }
  | some _ => (f st.behind).map fun g => { st with behind := g }

/-- Adds the value of a setting. -/
def addValue (st : State) (s : Setting) (value : String) : Option State :=
  if s.isAllowed st.command then st.update (·.addValue s value) else none

/-- Adds a switch. -/
def addSwitch (st : State) (s : Switch) : Option State :=
  if s.isAllowed st.command then st.update (·.addSwitch s) else none

/-- Adds a plain argument: the command, or an operand of it. -/
def addPlain (st : State) (arg : String) : Option State :=
  match st.command with
  | none => (Name.ofText? arg).map fun name => { st with command := some name }
  | some _ => some { st with operands := st.operands ++ [arg] }

/-- Reads joined short forms. Gives the setting whose value is still to come, if there is one. -/
def addShort (st : State) : List Char → Option (State × Option Setting)
  | [] => some (st, none)
  | c :: rest =>
    match Switch.ofShort? c, Setting.ofShort? c with
    | some s, _ => do addShort (← st.addSwitch s) rest
    | none, some s =>
      match rest with
      | [] => if s.isAllowed st.command then some (st, some s) else none
      | '=' :: value => do return (← st.addValue s (String.ofList value), none)
      | value => do return (← st.addValue s (String.ofList value), none)
    | none, none => none

/-- Reads a long form, whose value may follow an equals sign. -/
def addLong (st : State) (text : List Char) : Option (State × Option Setting) :=
  let name := String.ofList (text.takeWhile (· != '='))
  match text.dropWhile (· != '=') with
  | [] =>
    match Switch.ofLong? name, Setting.ofLong? name with
    | some s, _ => do return (← st.addSwitch s, none)
    | none, some s => if s.isAllowed st.command then some (st, some s) else none
    | none, none => none
  | _ :: value => do
    let s ← Setting.ofLong? name
    return (← st.addValue s (String.ofList value), none)

end State

/-- Whether an argument is read as settings or as the mark that ends them. A lone dash is neither. -/
def isOption (arg : String) : Bool :=
  match arg.toList with
  | '-' :: _ :: _ => true
  | _ => false

/-- Reads arguments. Where `pending` is a setting, the next one is its value. -/
def scan : (pending : Option Setting) → State → List String → Option State
  | none, st, [] => some st
  | some _, _, [] => none
  | some s, st, arg :: rest =>
    if isOption arg then none
    else do scan none (← st.addValue s arg) rest
  | none, st, arg :: rest =>
    match arg.toList with
    | ['-', '-'] =>
      if st.command.isSome then some { st with operands := st.operands ++ rest } else none
    | '-' :: '-' :: text => do
      let (st, pending) ← st.addLong text
      scan pending st rest
    | '-' :: c :: text => do
      let (st, pending) ← st.addShort (c :: text)
      scan pending st rest
    | _ => do scan none (← st.addPlain arg) rest

/-- The command of a state that was read to the end. -/
def State.command? (st : State) : Option Command :=
  match st.command, st.operands, st.behind.value? .record with
  | some .parse, [filter], none => some (.parse filter)
  | some .decode, [digits], none => some (.decode digits)
  | some .evaluate, [filter], some record =>
    some (.evaluate filter record (.ignoreCase ∈ st.behind.switches))
  | _, _, _ => none

/-- The value of a general setting. What stands behind the command counts more. -/
def State.value? (st : State) (s : Setting) : Option String :=
  (st.behind.value? s).or (st.before.value? s)

end Arguments

/-- The command and settings that the arguments ask for; none where they are misused, with no
further distinction. Settings and switches may be written in short or long form, short ones joined,
values attached or separate; the general ones stand before or behind the command. -/
def Invocation.ofArguments? (args : List String) : Option Invocation := do
  let st ← Arguments.scan none .start args
  let command ← st.command?
  return {
    config := st.value? .config
    output := (st.value? .output).bind OutputFormat.ofName?
    debug := .debug ∈ st.before.switches || .debug ∈ st.behind.switches
    command }

end SearchFilter
