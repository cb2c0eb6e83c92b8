import MethodSearch.Catalog.Print
import MethodSearch.Json.Layout
import MethodSearch.Json.Reader

/-!
# Reading catalogs

Each record has a draft, in which a field that was not met yet is missing. Access, opcodes and instructions have
several shapes: their value is read whole and then taken as the first shape that fits.
-/

namespace MethodSearch.Catalog

open Json

def AccessEntry.ofValue? (v : Value) : Option AccessEntry :=
  match v.natural? UInt16.size with
  | some n => some (.mask (UInt16.ofNat n))
  | none => v.strings?.map .names

def OpcodeEntry.ofValue? (v : Value) : Option OpcodeEntry :=
  match v.natural? UInt8.size with
  | some n => some (.code (UInt8.ofNat n))
  | none => v.string?.map .mnemonic

namespace InstructionEntry

/-- The markers, by the order in which their kinds are numbered. -/
inductive Kind where
  | label
  | line
  | frame
  deriving Repr, DecidableEq

/-- A kind is named or numbered. -/
def Kind.ofValue? : Value → Option Kind
  | .string "label" => some .label
  | .string "line" => some .line
  | .string "frame" => some .frame
  | .number n => match n.natural? with
    | some 0 => some .label
    | some 1 => some .line
    | some 2 => some .frame
    | _ => none
  | _ => none

/-- The value of a key that stands once. -/
def once? (name : String) (members : List (String × Value)) : Option Value :=
  match members.filter (·.1 == name) with
  | [(_, v)] => some v
  | _ => none

def word? (v : Value) : Option UInt32 :=
  (v.natural? UInt32.size).map UInt32.ofNat

/-- A marker as an object of its kind and its own field, or as an array of them. -/
def marker? : Value → Option InstructionEntry
  | .object members => do
      match ← Kind.ofValue? (← once? "kind" members) with
      | .label => some (.label (← word? (← once? "id" members)))
      | .line => some (.line (← word? (← once? "line" members)))
      | .frame => some .frame
  | .array (kind :: fields) => do
      match ← Kind.ofValue? kind, fields with
      | .label, [id] => some (.label (← word? id))
      | .line, [number] => some (.line (← word? number))
      | .frame, [] => some .frame
      | _, _ => none
  | _ => none

def ofValue? (v : Value) : Option InstructionEntry :=
  match v.natural? UInt8.size with
  | some n => some (.code (UInt8.ofNat n))
  | none => match v.string? with
    | some name => some (.mnemonic name)
    | none => marker? v

end InstructionEntry

/-! ## Records -/

structure MethodDraft where
  name : Option String := none
  descriptor : Option String := none
  access : Option AccessEntry := none
  instructions : List InstructionEntry := []

namespace MethodDraft

/-- The access of a method stands inside five containers, each instruction inside six. -/
def fields : List (LayoutField MethodDraft) := [
  ⟨"name", fun s d => do return { s with name := some (← d.text) }⟩,
  ⟨"descriptor", fun s d => do return { s with descriptor := some (← d.text) }⟩,
  ⟨"access", fun s d => do return { s with access := ← d.optional (·.anyOf 5 AccessEntry.ofValue?) }⟩,
  ⟨"instructions", fun s d => do
    return { s with instructions := ← d.list (·.anyOf 6 InstructionEntry.ofValue?) }⟩]

def close (s : MethodDraft) : Option MethodEntry := do
  return ⟨← s.name, ← s.descriptor, s.access, s.instructions⟩

def layout : Layout MethodDraft MethodEntry :=
  ⟨fields, {}, close, close⟩

end MethodDraft

structure ClassDraft where
  name : Option String := none
  methods : List MethodEntry := []

namespace ClassDraft

def fields : List (LayoutField ClassDraft) := [
  ⟨"name", fun s d => do return { s with name := some (← d.text) }⟩,
  ⟨"methods", fun s d => do return { s with methods := ← d.list MethodDraft.layout.read }⟩]

def close (s : ClassDraft) : Option ClassEntry := do
  return ⟨← s.name, s.methods⟩

def layout : Layout ClassDraft ClassEntry :=
  ⟨fields, {}, close, close⟩

end ClassDraft

def ClassCatalog.layout : Layout (Option (List ClassEntry)) ClassCatalog :=
  ⟨[⟨"classes", fun _ d => (d.list ClassDraft.layout.read).map some⟩], none, fun s => s.map .mk,
    fun s => s.map .mk⟩

structure SignatureDraft where
  name : Option String := none
  returns : Option String := none
  accessors : Option AccessEntry := none
  parameters : Option (List String) := none
  opcodes : Option (List OpcodeEntry) := none

namespace SignatureDraft

/-- The access of a signature stands inside three containers, each opcode inside four. -/
def fields : List (LayoutField SignatureDraft) := [
  ⟨"name", fun s d => do return { s with name := some (← d.text) }⟩,
  ⟨"returns", fun s d => do return { s with returns := ← d.optional (·.text) }⟩,
  ⟨"accessors", fun s d => do return { s with accessors := ← d.optional (·.anyOf 3 AccessEntry.ofValue?) }⟩,
  ⟨"parameters", fun s d => do return { s with parameters := ← d.optional (·.list (·.text)) }⟩,
  ⟨"opcodes", fun s d => do
    return { s with opcodes := ← d.optional (·.list (·.anyOf 4 OpcodeEntry.ofValue?)) }⟩]

def close (s : SignatureDraft) : Option SignatureEntry := do
  return ⟨← s.name, s.returns, s.accessors, s.parameters, s.opcodes⟩

def layout : Layout SignatureDraft SignatureEntry :=
  ⟨fields, {}, close, close⟩

end SignatureDraft

def SignatureCatalog.layout : Layout (Option (List SignatureEntry)) SignatureCatalog :=
  ⟨[⟨"signatures", fun _ d => (d.list SignatureDraft.layout.read).map some⟩], none, fun s => s.map .mk,
    fun s => s.map .mk⟩

def ClassCatalog.parse (text : String) : Except Fault ClassCatalog :=
  Json.decode ClassCatalog.layout.read text

def SignatureCatalog.parse (text : String) : Except Fault SignatureCatalog :=
  Json.decode SignatureCatalog.layout.read text

end MethodSearch.Catalog
