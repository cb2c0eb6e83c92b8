import MethodSearch.Catalog.Parse
import MethodSearch.Config
import MethodSearch.Console.Host
import MethodSearch.Text.Style

/-!
# Actions

Steps of a command that may fail, and the loading of files. Every failure says what was being done.
-/

namespace MethodSearch.Console

open Bytecode Text

/-- A fault of a file is named twice: as what went wrong, and as its cause. -/
def Failure.ofFile (f : FileFault) : Failure :=
  ⟨["IO error: " ++ f.message, f.message]⟩

/-- These words are a stand-in for those of a library for JSON, and are free. Only the kind of a fault is fixed. -/
def faultText : Json.Fault → String
  | .truncated => "the text ends too early"
  | .malformed => "the text is not JSON"
  | .misshapen => "the text has another shape"

def Failure.ofCatalog : Catalog.Error → Failure
  | .json f => ⟨["Malformed catalog: " ++ faultText f, faultText f]⟩
  | .conversion e => match e with
    | .classData _ source => ⟨[e.message, source.message]⟩
    | .pattern _ source => ⟨[e.message, source.message]⟩
    | _ => ⟨[e.message]⟩

abbrev Action (m : Type → Type) (α : Type) : Type :=
  ExceptT Failure m α

variable {m : Type → Type} [Monad m] [Host m]

namespace Action

def run {α : Type} (a : Action m α) : m (Except Failure α) :=
  ExceptT.run a

def fail {α : Type} (message : String) : Action m α :=
  throw ⟨[message]⟩

/-- The value, or a failure in a context. -/
def orFail {α ε : Type} (context : String) (toFailure : ε → Failure) (e : Except ε α) : Action m α :=
  match e with
  | .ok a => pure a
  | .error e => throw ((toFailure e).within context)

def print (s : String) : Action m Unit :=
  ExceptT.lift (Host.print s)

def log (r : Log.Record) : Action m Unit :=
  ExceptT.lift (Host.log r)

def readText (context path : String) : Action m String := do
  orFail context .ofFile (← ExceptT.lift (Host.readText path))

end Action

def loadConfig (path : String) : Action m Config := do
  let context := "Failed to load config " ++ path
  let text ← Action.readText context path
  Action.orFail context (fun f => ⟨["Malformed config: " ++ faultText f, faultText f]⟩) (Config.parse text)

def loadClasses (path : String) : Action m (List JavaClass) := do
  let context := "Failed to load classes from " ++ path
  let text ← Action.readText context path
  let classes ← Action.orFail context .ofCatalog (Catalog.parseClasses text)
  Action.log ⟨.debug, .catalog, "Loaded " ++ Nat.repr classes.length ++ " classes from " ++ path⟩
  return classes

/-- The warnings are logged also when the catalog is refused. -/
def loadSignatures (path : String) : Action m (List Signature) := do
  let context := "Failed to load signatures from " ++ path
  let text ← Action.readText context path
  let (parsed, warnings) := Catalog.parseSignatures text
  warnings.forM fun w => Action.log w.record
  let signatures ← Action.orFail context .ofCatalog parsed
  Action.log ⟨.debug, .catalog, "Loaded " ++ Nat.repr signatures.length ++ " signatures from " ++ path⟩
  return signatures

/-- What goes with every command: whether it prints only what was asked for, and how it draws. -/
structure Manner where
  quiet : Bool
  look : Look
  deriving Repr, DecidableEq

/-- A mark in front of a line. It is drawn wherever the terminal shows styles. -/
def Manner.mark (manner : Manner) (colour : Colour) (text : String) : String :=
  (Style.coloured colour).paint manner.look.shown text

end MethodSearch.Console
