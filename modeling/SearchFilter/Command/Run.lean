import SearchFilter.Command.Arguments
import SearchFilter.Command.Directory
import SearchFilter.Evaluate
import SearchFilter.Filter.Encode
import SearchFilter.Filter.Limit
import SearchFilter.Filter.Projection
import SearchFilter.Filter.Render
import SearchFilter.Record.Json
import SearchFilter.Record.Yaml

namespace SearchFilter

/-- How much a line of the log matters. -/
inductive Level where
  | info
  | debug
  | error
  deriving DecidableEq, Repr

/-- The name of a level. -/
def Level.name : Level → String
  | .info => "INFO"
  | .debug => "DEBUG"
  | .error => "ERROR"

/-- The parts of the program that write to the log. -/
inductive Origin where
  | command
  | parser
  | codec
  deriving DecidableEq, Repr

/-- The name of a part. -/
def Origin.name : Origin → String
  | .command => "ldap_filter"
  | .parser => "ldap_filter::parser"
  | .codec => "ldap_filter::codec"

/-- A line of the log. -/
structure LogLine where
  level : Level
  origin : Origin
  message : String
  deriving DecidableEq, Repr

/-- How a character of a message stands in the log. Those that steer a terminal are written by their
numbers; other controls stay. -/
def LogLine.showChar (c : Char) : List Char :=
  if c = '\x07' ∨ c = '\x08' ∨ c = '\x0c' ∨ c = '\x1b' ∨ c = '\x7f' then
    ['\\', 'x'] ++ Hex.pair (UInt8.ofNat c.toNat)
  else if '\u0080' ≤ c ∧ c ≤ '\u009f' then ['\\', 'u', '\x7b'] ++ Hex.ofNat c.toNat ++ ['\x7d']
  else [c]

/-- The text of a line. -/
def LogLine.render (line : LogLine) : String :=
  line.level.name ++ " " ++ line.origin.name ++ ": " ++
    String.ofList (line.message.toList.flatMap showChar)

/-- The text in a file, or why it cannot be read. -/
abbrev Files := String → Except FileFault String

/-- A run of a command: it writes to the log, and gives a value or a message. -/
abbrev Run := EStateM String (List LogLine)

/-- What a run of the program shows. -/
structure Outcome where
  code : Nat
  output : String
  log : List LogLine
  /-- Whether the arguments were misused. -/
  usage : Bool
  deriving DecidableEq, Repr

namespace Run

/-- Writes a line to the log. -/
def log (level : Level) (origin : Origin) (message : String) : Run Unit :=
  modify (· ++ [{ level, origin, message }])

/-- The content of a file. The purpose of reading it stands in front of the reason of a failure. -/
def file (files : Files) (purpose path : String) : Run String :=
  match files path with
  | .ok content => return content
  | .error fault => throw (purpose ++ " " ++ path ++ ": " ++ fault.message)

/-- The configuration in a file, if one is named. -/
def config (files : Files) : Option String → Run Config
  | none => return .default
  | some path => do
    log .info .command ("Configuration source: file " ++ Quoted.path path)
    match Config.ofText? (← file files "Read config" path) with
    | some c => return c
    | none => throw "invalid configuration"

/-- Reads a filter text under a limit. -/
def filterText (limit : Option Nat) (text : String) : Run Filter := do
  match Filter.parseLimited limit text with
  | .ok f =>
    logReading
    return f
  | .error (.tooDeep depth most) => throw (LimitedFault.tooDeep depth most).message
  | .error (.rejected e) =>
    logReading
    log .debug .parser ("Rejected filter string " ++ Quoted.text text ++ ": " ++ e.message)
    throw e.message
where
  /-- Logs that the text is read. -/
  logReading : Run Unit :=
    log .debug .parser s!"Parsing filter string ({text.utf8ByteSize} bytes)"

/-- Why hexadecimal digits cannot be read. -/
def hexMessage : Hex.Fault → String
  | .oddLength => "Invalid hex input: Odd number of digits"
  | .notADigit b index =>
    "Invalid hex input: Invalid character " ++ Quoted.char (Char.ofNat b.toNat) ++ " at position " ++
      toString index

/-- The octets that hexadecimal digits stand for, white space between them or not. -/
def octets (digits : String) : Run Octets :=
  match Hex.decode (Utf8.encodeChars (digits.toList.filter (!Blank.contains ·))) with
  | .ok bs => return bs
  | .error fault => throw (hexMessage fault)

/-- What stands in front of the reason why an encoding is refused under a limit. -/
def limitContext : Option Nat → String
  | some most => s!"BER filter rejected (max_depth {most}): "
  | none => ""

/-- Reads an encoded filter under a limit. -/
def filterBer (limit : Option Nat) (data : Octets) : Run Filter := do
  log .debug .codec s!"Decoding BER filter ({data.length} bytes)"
  match Filter.ofBerLimited limit data with
  | .ok f => return f
  | .error e =>
    log .debug .codec ("Rejected BER filter: " ++ e.message)
    throw (limitContext limit ++ e.message)

/-- A filter in an output format, on a line of its own. -/
def printed (format : OutputFormat) (f : Filter) : String :=
  match format with
  | .text => f.render ++ "\n"
  | .ber => String.ofList (Hex.encode f.toBer) ++ "\n"
  | .json => f.project.pretty ++ "\n"

/-- Whether the name of a file ends in `.json`, in either case. A name that starts with its only
period has no ending. -/
def isJsonPath (path : String) : Bool :=
  let name := (path.toList.reverse.takeWhile (· != '/'))
  let ending := name.takeWhile (· != '.')
  ending.reverse.map Char.toLower == ['j', 's', 'o', 'n'] && ending.length + 1 < name.length

/-- The record in a file: JSON if the name says so, otherwise YAML. -/
def record (files : Files) (path : String) : Run Record := do
  let content ← file files "Read record" path
  if isJsonPath path then
    match Record.ofJsonText? content with
    | some r => return r
    | none => throw "Invalid JSON record"
  else
    match Record.ofYamlText? content with
    | some r => return r
    | none => throw "Invalid YAML record"

/-- The text of a truth value. -/
def truth (b : Bool) : String :=
  if b then "true" else "false"

/-- Runs a command. Gives the exit code and the output. -/
def command (files : Files) (c : Config) (format : OutputFormat) : Command → Run (Nat × String)
  | .parse text => do
    let f ← filterText c.maxDepth text
    return (0, printed format f)
  | .decode digits => do
    let f ← filterBer c.maxDepth (← octets digits)
    return (0, printed format f)
  | .evaluate text path ignoreCase => do
    let f ← filterText c.maxDepth text
    let r ← record files path
    let strict := c.strictCase && !ignoreCase
    log .debug .command
      s!"Matching {f.render} against {r.size} attributes (strict_case={truth strict})"
    match f.holds r strict with
    | .ok b => return (if b then 0 else 1, truth b ++ "\n")
    | .error e => throw e.message

/-- Runs a command with its settings. -/
def invocation (files : Files) (i : Invocation) : Run (Nat × String) := do
  let c ← config files i.config
  command files c (i.output.getD c.output) i.command

end Run

/-- The lines of a log that are shown: those for debugging only where they are asked for. -/
def shownLines (debug : Bool) (log : List LogLine) : List LogLine :=
  log.filter (debug || ·.level != .debug)

/-- Runs the program as a function of its arguments and of what the named files hold. Misused
arguments and every other failure give the exit code 2. -/
def Outcome.ofArguments (files : Files) (args : List String) : Outcome :=
  match Invocation.ofArguments? args with
  | none => { code := 2, output := "", log := [], usage := true }
  | some i =>
    match Run.invocation files i [] with
    | .ok (code, output) log =>
      { code, output, log := shownLines i.debug log, usage := false }
    | .error message log =>
      { code := 2, output := ""
        log := shownLines i.debug log ++ [{ level := .error, origin := .command, message }]
        usage := false }

end SearchFilter
