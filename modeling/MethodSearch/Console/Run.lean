import MethodSearch.Console.Action
import MethodSearch.Console.Arguments
import MethodSearch.Console.Banner
import MethodSearch.Console.Lookup
import MethodSearch.Console.Resolve
import MethodSearch.Text.Count

/-!
# Running an invocation

The configuration is loaded, the log started and the banner printed; then the command runs. The command `opcodes`
lists opcodes and their mnemonics, all of them or those whose mnemonic holds a text.
-/

namespace MethodSearch.Console

open Bytecode Text

def opcodeLine (code : Opcode) (name : String) : String :=
  padLeft 3 (Nat.repr code.toNat) ++ "  0x" ++ hex 2 code.toNat ++ "  " ++ name ++ "\n"

/-- The mnemonics that hold the filter, whatever its ASCII case. -/
def opcodeLines (o : OpcodesOptions) : List String :=
  let wanted := o.filter.map fun f => f.toUpper.toList
  (Opcode.assigned.filter fun (_, name) => match wanted with
    | some part => holds part name.toList
    | none => true).map fun (code, name) => opcodeLine code name

variable {m : Type → Type} [Monad m] [Host m]

def runOpcodes (o : OpcodesOptions) : Action m Unit :=
  Action.print (String.join (opcodeLines o))

variable {m : Type → Type} [Monad m] [Host m]

namespace Invocation

/-- An explicit level comes before the count, and the count before the configuration. -/
def threshold (i : Invocation) (c : Config) : Log.Threshold :=
  match i.logLevel with
  | some level => .ofSetting level
  | none => if i.verbosity = 0 then .ofSetting c.logLevel else .ofVerbosity i.verbosity

def manner (shown : Bool) (i : Invocation) : Manner :=
  ⟨i.quiet, ⟨!i.noColour, shown && !i.noColour⟩⟩

def showsBanner (i : Invocation) : Bool :=
  !i.quiet && (match i.command with
    | .opcodes _ => false
    | _ => true)

/-- Runs a command on a terminal that shows styles, or does not. -/
def run (shown : Bool) (i : Invocation) : Action m Unit := do
  let config ← match i.config with
    | some path => loadConfig path
    | none => pure {}
  ExceptT.lift (Host.startLog (i.threshold config))
  let manner := i.manner shown
  if i.showsBanner then
    Action.print (Banner.program.render manner.look ++ "\n")
  match i.command with
  | .resolve options => runResolve manner config options
  | .lookup options => runLookup manner options
  | .opcodes options => runOpcodes options

end Invocation

end MethodSearch.Console
