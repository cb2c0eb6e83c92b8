import MethodSearch.Console.Action
import MethodSearch.Console.Arguments
import MethodSearch.Resolution.Resolve

/-!
# The command `lookup`

Finds the first method of one class that has one signature.
-/

namespace MethodSearch.Console

open Bytecode Text

/-- A part that cannot be read. -/
inductive PartError where
  | classData (source : Bytecode.Error)
  | pattern (source : Pattern.Error)
  deriving Repr, DecidableEq

def PartError.message : PartError → String
  | .classData source => source.message
  | .pattern source => source.message

namespace LookupOptions

/-- Whether the signature is given in parts. -/
def hasParts (o : LookupOptions) : Bool :=
  o.returns.isSome || o.access.isSome || o.params.isSome || o.pattern.isSome

/-- A signature comes from a catalog by its name, or is given in parts. -/
def check (o : LookupOptions) : Except String Unit :=
  if o.signature.isSome && o.signatures.isNone then .error "--signature requires --signatures"
  else if o.signatures.isSome && o.hasParts then
    .error "inline constraints cannot be combined with --signatures"
  else .ok ()

/-- The signature given in parts. Flags and parameter types are written with commas. -/
def inlineSignature (o : LookupOptions) : Except PartError Signature := do
  let returns ← (Catalog.convertPart JavaType.parse o.returns).mapError .classData
  let accessors ← (Catalog.convertPart (fun s => Access.ofKeywords (commaItems s)) o.access).mapError .classData
  let parameters ←
    (Catalog.convertPart (fun s => (commaItems s).mapM JavaType.parse) o.params).mapError .classData
  let opcodes ← (Catalog.convertPart Pattern.parse o.pattern).mapError .pattern
  return ⟨"inline", returns, accessors, parameters, opcodes⟩

end LookupOptions

variable {m : Type → Type} [Monad m] [Host m]

def catalogSignature (path name : String) : Action m Signature := do
  match (← loadSignatures path).find? (·.name == name) with
  | some s => return s
  | none => Action.fail ("Signature " ++ name ++ " not found in " ++ path)

def lookupLine (manner : Manner) (c : JavaClass) (s : Signature) : Option Location → String
  | some l =>
      manner.mark .green "[+]" ++ " " ++ s.name ++ " -> " ++ l.owner.name ++ "." ++ l.method.name ++
        l.method.descriptor ++ " (" ++ l.method.access.render ++ ")\n"
  | none => manner.mark .yellow "[-]" ++ " No method of " ++ c.name ++ " matches " ++ s.render ++ "\n"

def runLookup (manner : Manner) (o : LookupOptions) : Action m Unit := do
  Action.log ⟨.info, .command, "Executing lookup command"⟩
  match o.check with
  | .error message => Action.fail message
  | .ok () => pure ()
  let classes ← loadClasses o.classes
  let c ← match classes.find? (·.name == o.className) with
    | some c => pure c
    | none => Action.fail ("Class " ++ o.className ++ " not found in " ++ o.classes)
  let s ← match o.signatures, o.signature with
    | some path, some name => catalogSignature path name
    | _, _ => match o.inlineSignature with
      | .ok s => pure s
      | .error e => Action.fail e.message
  let (found, events) := lookup c s
  events.forM fun e => Action.log e.record
  Action.print (lookupLine manner c s found)

end MethodSearch.Console
