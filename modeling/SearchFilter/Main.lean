import SearchFilter.Command.Run

namespace SearchFilter.CommandLine

/-- The files that an invocation reads. -/
def namedFiles (i : Invocation) : List String :=
  i.config.toList ++
    match i.command with
    | .evaluate _ path _ => [path]
    | _ => []

/-- Why a file cannot be read, by the number of the failure, which may come with either sign. -/
def fault (code : UInt32) (e : IO.Error) : FileFault :=
  match if code < 0x80000000 then code else 0 - code with
  | 2 => .missing
  | 20 => .notDirectory
  | 21 => .isDirectory
  | 36 => .nameTooLong
  | _ => .other (toString e)

/-- The text in a file, or why it cannot be read. -/
def readText (path : String) : IO (Except FileFault String) := do
  try
    let bytes ← IO.FS.readBinFile path
    match Utf8.decode? bytes.toList with
    | some text => return .ok text
    | none => return .error .notText
  catch
    | e@(.noFileOrDirectory _ code _) | e@(.inappropriateType _ code _)
    | e@(.invalidArgument _ code _) | e@(.resourceExhausted _ code _) => return .error (fault code e)
    | e => return .error (.other (toString e))

/-- Reads some files. -/
def readFiles (paths : List String) : IO Files := do
  let contents ← paths.mapM fun path => do return (path, ← readText path)
  return fun path => (contents.lookup path).getD (.error .missing)

/-- The line that misused arguments give. -/
def usageLine : String :=
  "usage: ldap-filter [-c FILE] [-o text|ber|json] [-d] (parse FILTER | decode HEX | match FILTER -r FILE [-i])"

/-- Runs the program: reads the files that the arguments name, runs the command on what they hold,
and shows the outcome. -/
def run (args : List String) : IO UInt32 := do
  let paths := (Invocation.ofArguments? args).elim [] namedFiles
  let outcome := Outcome.ofArguments (← readFiles paths) args
  if outcome.usage then IO.eprintln usageLine
  for line in outcome.log do
    IO.eprintln line.render
  IO.print outcome.output
  return UInt32.ofNat outcome.code

end SearchFilter.CommandLine

/-- Runs the program and gives its exit code. -/
def main (args : List String) : IO UInt32 :=
  SearchFilter.CommandLine.run args
