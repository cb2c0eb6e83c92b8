import MethodSearch.Json.Print

/-!
# Catalogs

Classes and signatures as their files give them: types and descriptors as texts, access as a mask or a list of
keywords, opcodes as numbers or mnemonics. Every field is written, in the order of declaration, with `null` for what
is not there.
-/

namespace MethodSearch.Catalog

open Json

inductive AccessEntry where
  | mask (bits : UInt16)
  | names (keywords : List String)
  deriving Repr, DecidableEq

inductive OpcodeEntry where
  | code (byte : UInt8)
  | mnemonic (name : String)
  deriving Repr, DecidableEq

inductive InstructionEntry where
  | code (byte : UInt8)
  | mnemonic (name : String)
  | label (id : UInt32)
  | line (number : UInt32)
  | frame
  deriving Repr, DecidableEq

structure MethodEntry where
  name : String
  descriptor : String
  access : Option AccessEntry
  instructions : List InstructionEntry
  deriving Repr, DecidableEq

structure ClassEntry where
  name : String
  methods : List MethodEntry
  deriving Repr, DecidableEq

structure ClassCatalog where
  classes : List ClassEntry
  deriving Repr, DecidableEq

/-- A part that is not there is left open. -/
structure SignatureEntry where
  name : String
  returns : Option String
  accessors : Option AccessEntry
  parameters : Option (List String)
  opcodes : Option (List OpcodeEntry)
  deriving Repr, DecidableEq

structure SignatureCatalog where
  signatures : List SignatureEntry
  deriving Repr, DecidableEq

/-! ## Writing -/

def AccessEntry.toJson : AccessEntry → Value
  | .mask bits => .ofNat bits.toNat
  | .names keywords => .ofList .string keywords

def OpcodeEntry.toJson : OpcodeEntry → Value
  | .code byte => .ofNat byte.toNat
  | .mnemonic name => .string name

def InstructionEntry.toJson : InstructionEntry → Value
  | .code byte => .ofNat byte.toNat
  | .mnemonic name => .string name
  | .label id => .object [("kind", .string "label"), ("id", .ofNat id.toNat)]
  | .line number => .object [("kind", .string "line"), ("line", .ofNat number.toNat)]
  | .frame => .object [("kind", .string "frame")]

def MethodEntry.toJson (m : MethodEntry) : Value :=
  .object [
    ("name", .string m.name),
    ("descriptor", .string m.descriptor),
    ("access", .ofOption AccessEntry.toJson m.access),
    ("instructions", .ofList InstructionEntry.toJson m.instructions)]

def ClassEntry.toJson (c : ClassEntry) : Value :=
  .object [("name", .string c.name), ("methods", .ofList MethodEntry.toJson c.methods)]

def ClassCatalog.toJson (c : ClassCatalog) : Value :=
  .object [("classes", .ofList ClassEntry.toJson c.classes)]

def SignatureEntry.toJson (s : SignatureEntry) : Value :=
  .object [
    ("name", .string s.name),
    ("returns", .ofOption .string s.returns),
    ("accessors", .ofOption AccessEntry.toJson s.accessors),
    ("parameters", .ofOption (.ofList .string) s.parameters),
    ("opcodes", .ofOption (.ofList OpcodeEntry.toJson) s.opcodes)]

def SignatureCatalog.toJson (s : SignatureCatalog) : Value :=
  .object [("signatures", .ofList SignatureEntry.toJson s.signatures)]

def ClassCatalog.render (c : ClassCatalog) : String :=
  c.toJson.compact

def SignatureCatalog.render (s : SignatureCatalog) : String :=
  s.toJson.compact

end MethodSearch.Catalog
