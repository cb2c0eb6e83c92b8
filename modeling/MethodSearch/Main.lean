import MethodSearch.Console.Arguments
import MethodSearch.Console.Process

/-!
# The program

The surroundings of a real process: its files, its output and its log, which goes to the error output as it is
written.
-/

namespace MethodSearch.Console

structure Terminal where
  style : LogStyle
  environment : Environment
  /-- There is none until the log is started. -/
  filter : Option Log.Filter := none

abbrev Terminal.Run := StateT Terminal IO

namespace Terminal

/-- The fault of an operation, by its kind where the kind is known. -/
def fileFault : IO.Error → FileFault
  | .noFileOrDirectory .. => .notFound
  | .inappropriateType .. => .isDirectory
  | e => .other (toString e)

def readText (path : String) : IO (Except FileFault String) := do
  try
    match Content.ofBytes (← IO.FS.readBinFile path) with
    | .text s => return .ok s
    | .bytes _ => return .error .notText
  catch e => return .error (fileFault e)

def writeText (path text : String) : IO (Except FileFault Unit) := do
  try
    IO.FS.writeFile path text
    return .ok ()
  catch e => return .error (fileFault e)

instance : Host Terminal.Run where
  readText path := readText path
  writeText path text := writeText path text
  print s := IO.print s
  startLog t := do
    let filter := (← get).environment.logFilter t
    filter.warnings.forM fun w => IO.eprint (w ++ "\n")
    modify fun terminal => { terminal with filter := some filter }
  log r := do
    let terminal ← get
    if terminal.filter.any (·.passes r) then
      IO.eprint (terminal.style.write r)

end Terminal

/-- The variables that matter. -/
def readEnvironment : IO Environment := do
  let names := ["CLICOLOR_FORCE", "NO_COLOR", "RUST_LOG", "RUST_LOG_STYLE"]
  names.filterMapM fun name => do return (← IO.getEnv name).map fun value => (name, value)

end MethodSearch.Console

open MethodSearch.Console in
def main (args : List String) : IO UInt32 := do
  match readArguments args with
  | .error u =>
      if u.isRequest then IO.print u.message else IO.eprint u.message
      return UInt32.ofNat u.exitCode
  | .ok i =>
      let env ← readEnvironment
      let shown := env.showsStyles && !i.noColour
      let terminal : Terminal := { style := ⟨shown, env.plainLog⟩, environment := env }
      let (result, _) ← ((i.run shown : Action Terminal.Run Unit).run).run terminal
      match result with
      | .ok () => return 0
      | .error f =>
          IO.eprint (f.line shown)
          return 1
