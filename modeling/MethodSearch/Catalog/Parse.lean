import MethodSearch.Catalog.Print
import MethodSearch.Catalog.Read
import MethodSearch.Log.Record
import MethodSearch.Signature.Basic

/-!
# From entries to classes and signatures

A catalog is read completely as JSON, and then its texts are read as the types, flags and opcodes they name. The first
fault in the order of the document stops the conversion. Signatures of one catalog have names that are not blank and
differ from each other.
-/

namespace MethodSearch.Catalog

open Bytecode

inductive ConversionError where
  | classData (context : String) (source : Bytecode.Error)
  | pattern (context : String) (source : Pattern.Error)
  | duplicateSignature (name : String)
  | emptySignatureName
  deriving Repr, DecidableEq

def ConversionError.message : ConversionError → String
  | .classData context source => "Invalid class data in " ++ context ++ ": " ++ source.message
  | .pattern context source => "Invalid opcode pattern in " ++ context ++ ": " ++ source.message
  | .duplicateSignature name => "Duplicate signature name: " ++ name
  | .emptySignatureName => "Signature name must not be empty"

def AccessEntry.convert : AccessEntry → Except Bytecode.Error Access
  | .mask bits => .ok ⟨bits⟩
  | .names keywords => Access.ofKeywords keywords

def OpcodeEntry.convert : OpcodeEntry → Except Pattern.Error Opcode
  | .code byte => .ok byte
  | .mnemonic name => match Opcode.ofMnemonic? name with
    | some byte => .ok byte
    | none => .error (.invalidToken name)

def InstructionEntry.convert : InstructionEntry → Except Bytecode.Error Instruction
  | .code byte => .ok (.op byte)
  | .mnemonic name => match Opcode.ofMnemonic? name with
    | some byte => .ok (.op byte)
    | none => .error (.unknownOpcode name)
  | .label id => .ok (.label id)
  | .line number => .ok (.line number)
  | .frame => .ok .frame

def convertPart {α β ε : Type} (f : α → Except ε β) : Option α → Except ε (Constraint β)
  | none => .ok .any
  | some a => (f a).map .exactly

/-- No access stands for the empty mask. -/
def MethodEntry.convertParts (m : MethodEntry) : Except Bytecode.Error Method := do
  let access ← match m.access with
    | some a => a.convert
    | none => .ok .empty
  let body ← m.instructions.mapM InstructionEntry.convert
  let method ← Method.ofDescriptor m.name m.descriptor access
  return { method with body := body }

def MethodEntry.convert (owner : String) (m : MethodEntry) : Except ConversionError Method :=
  m.convertParts.mapError (.classData (owner ++ "." ++ m.name ++ m.descriptor))

def ClassEntry.convert (c : ClassEntry) : Except ConversionError JavaClass := do
  return ⟨c.name, ← c.methods.mapM (·.convert c.name)⟩

def ClassCatalog.convert (c : ClassCatalog) : Except ConversionError (List JavaClass) :=
  c.classes.mapM ClassEntry.convert

/-- What is said about a signature that any method may have. -/
inductive Warning where
  | emptyPattern (name : String)
  | noConstraints (name : String)
  deriving Repr, DecidableEq

def Warning.message : Warning → String
  | .emptyPattern name => "Signature " ++ name ++ " has an empty opcode pattern, it matches any body"
  | .noConstraints name =>
      "Signature " ++ name ++ " has no constraints, it matches the first method scanned"

def Warning.record (w : Warning) : Log.Record :=
  ⟨.warn, .catalog, w.message⟩

def warnings (s : Signature) : List Warning :=
  (if s.opcodes = .exactly ⟨[]⟩ then [.emptyPattern s.name] else []) ++
    (if s.isUnconstrained then [.noConstraints s.name] else [])

def SignatureEntry.context (s : SignatureEntry) : String :=
  "signature " ++ s.name

def SignatureEntry.convert (s : SignatureEntry) : Except ConversionError Signature := do
  let returns ← (convertPart JavaType.parse s.returns).mapError (.classData s.context)
  let accessors ← (convertPart AccessEntry.convert s.accessors).mapError (.classData s.context)
  let parameters ← (convertPart (·.mapM JavaType.parse) s.parameters).mapError (.classData s.context)
  let opcodes ← (convertPart (fun es => (es.mapM OpcodeEntry.convert).map Pattern.mk) s.opcodes).mapError
    (.pattern s.context)
  return ⟨s.name, returns, accessors, parameters, opcodes⟩

/-- A name must hold a character that is not blank, and be new. -/
def SignatureEntry.check (seen : List String) (s : SignatureEntry) : Except ConversionError Unit :=
  if (Text.trim s.name).isEmpty then .error .emptySignatureName
  else if s.name ∈ seen then .error (.duplicateSignature s.name)
  else .ok ()

/-- Converts entries one after another. The warnings of those before a fault are kept. -/
def convertSignatures (seen : List String) :
    List SignatureEntry → Except ConversionError (List Signature) × List Warning
  | [] => (.ok [], [])
  | s :: rest =>
      match (s.check seen).bind fun _ => s.convert with
      | .error e => (.error e, [])
      | .ok signature =>
          let (converted, ws) := convertSignatures (s.name :: seen) rest
          (converted.map (signature :: ·), warnings signature ++ ws)

def SignatureCatalog.convert (s : SignatureCatalog) :
    Except ConversionError (List Signature) × List Warning :=
  convertSignatures [] s.signatures

inductive Error where
  | json (fault : Json.Fault)
  | conversion (error : ConversionError)
  deriving Repr, DecidableEq

def parseClasses (text : String) : Except Error (List JavaClass) := do
  let catalog ← (ClassCatalog.parse text).mapError .json
  catalog.convert.mapError .conversion

/-- The signatures or the fault, and the warnings up to there. -/
def parseSignatures (text : String) : Except Error (List Signature) × List Warning :=
  match SignatureCatalog.parse text with
  | .error f => (.error (.json f), [])
  | .ok catalog =>
      let (signatures, ws) := catalog.convert
      (signatures.mapError .conversion, ws)

end MethodSearch.Catalog
