import MethodSearch.Console.Arguments
import MethodSearch.Console.Files
import MethodSearch.Console.Run
import MethodSearch.Log.Directive
import MethodSearch.Text.Plain

/-!
# Processes

A command line in a world of files, and as a process with an environment: what it prints, what it writes and how
it ends.
-/

namespace MethodSearch.Console

structure Outcome (M : Machine) where
  failure : Option Failure
  world : World M

def runOn (M : Machine) (shown : Bool) (i : Invocation) : Outcome M :=
  let (result, world) := ((i.run shown : Action (StateM (World M)) Unit).run).run {}
  match result with
  | .ok () => ⟨none, world⟩
  | .error f => ⟨some f, world⟩

def runIn (shown : Bool) (files : Files) (i : Invocation) : Outcome files.machine :=
  runOn files.machine shown i

def Outcome.stdout {M : Machine} (o : Outcome M) : String :=
  String.join o.world.printed

abbrev Environment := List (String × String)

namespace Environment

def get? (env : Environment) (name : String) : Option String :=
  (env.find? (·.1 == name)).map (·.2)

/-- Styles are shown where they are forced, as nothing here is a terminal. -/
def showsStyles (env : Environment) : Bool :=
  match env.get? "CLICOLOR_FORCE" with
  | some value => value != "0"
  | none => false

/-- Whether a variable has a value. An empty one is none. -/
def has (env : Environment) (name : String) : Bool :=
  (env.get? name).any (!·.isEmpty)

/-- Records are written as plain text unless styles are forced, which `NO_COLOR` prevents. `RUST_LOG_STYLE` may
settle it. -/
def plainLog (env : Environment) : Bool :=
  match env.get? "RUST_LOG_STYLE" with
  | some "always" => false
  | some "never" => true
  | _ => env.has "NO_COLOR" || !env.has "CLICOLOR_FORCE"

/-- What the environment says of the log, on top of the threshold that holds without it. -/
def logFilter (env : Environment) (t : Log.Threshold) : Log.Filter :=
  (Log.Filter.ofThreshold t).add ((env.get? "RUST_LOG").getD "")

end Environment

def versionLine : String :=
  "method-locator " ++ programVersion ++ "\n"

/-- These words are a stand-in for the help that a library for command lines would write, and are free. -/
def helpText : String :=
  "Locate methods in recompiled class dumps by structural signature\n\n" ++
    "Usage: method-locator [OPTIONS] <COMMAND>\n\n" ++
    "Commands:\n" ++
    "  resolve  Resolve every signature of a catalog against every class\n" ++
    "  lookup   Find the first method of one class matching one signature\n" ++
    "  opcodes  List the opcode mnemonics accepted in catalogs and patterns\n" ++
    "  help     Print this message\n"

/-- The errors, too, are a stand-in: of a usage only its kind and its exit code are fixed. -/
def Usage.message : Usage → String
  | .help | .helpForNothing => helpText
  | .version => versionLine
  | .missingCommand => "error: a command is required\n"
  | .unknownCommand => "error: unrecognized command\n"
  | .unknownArgument => "error: unexpected argument\n"
  | .missingValue => "error: a value is required\n"
  | .invalidValue => "error: invalid value\n"
  | .missingArgument => "error: a required argument was not given\n"
  | .repeatedArgument => "error: an argument cannot be used multiple times\n"
  | .unexpectedValue => "error: unexpected value\n"

/-- What was asked for is no error. -/
def Usage.isRequest : Usage → Bool
  | .help | .version => true
  | _ => false

def Usage.exitCode (u : Usage) : Nat :=
  if u.isRequest then 0 else 2

/-! ## As a process -/

structure ProcessResult where
  exitCode : Nat
  stdout : String
  stderr : String
  files : Files

def Failure.line (shown : Bool) (f : Failure) : String :=
  (Text.Style.coloured .red).paint shown "[!]" ++ " " ++ f.message ++ "\n"

structure LogStyle where
  shown : Bool
  plain : Bool

def LogStyle.write (style : LogStyle) (r : Log.Record) : String :=
  let line := r.line style.shown ++ "\n"
  if style.plain then Text.plain line else line

def noticeText (style : LogStyle) (f : Log.Filter) : Notice → String
  | .record r => if f.passes r then style.write r else ""
  | .text s => s

def logText (style : LogStyle) (f : Log.Filter) (notices : List Notice) : String :=
  String.join (f.warnings.map (· ++ "\n") ++ notices.map (noticeText style f))

def runProcess (env : Environment) (files : Files) (args : List String) : ProcessResult :=
  match readArguments args with
  | .error u =>
      if u.isRequest then ⟨u.exitCode, u.message, "", files⟩ else ⟨u.exitCode, "", u.message, files⟩
  | .ok i =>
      let outcome := runIn env.showsStyles files i
      let shown := env.showsStyles && !i.noColour
      let log := match outcome.world.threshold with
        | some t => logText ⟨shown, env.plainLog⟩ (env.logFilter t) outcome.world.notices
        | none => ""
      match outcome.failure with
      | none => ⟨0, outcome.stdout, log, outcome.world.files⟩
      | some f => ⟨1, outcome.stdout, log ++ f.line shown, outcome.world.files⟩

end MethodSearch.Console
