import MethodSearch.Bytecode.Access
import MethodSearch.Bytecode.Opcode
import MethodSearch.Bytecode.Read

/-!
# Methods and classes

The body of a method is a list of opcodes with markers between them: jump targets, line numbers and stack map frames.
Markers carry no opcode. A method has a name, a type, a mask of access flags and a body. A class has a name and methods,
whose names may repeat.
-/

namespace MethodSearch.Bytecode

inductive Instruction where
  | op (code : Opcode)
  | label (id : UInt32)
  | line (number : UInt32)
  | frame
  deriving Repr, DecidableEq

namespace Instruction

def opcode? : Instruction → Option Opcode
  | .op code => some code
  | _ => none

def isMarker (i : Instruction) : Bool :=
  i.opcode?.isNone

def render : Instruction → String
  | .op code => code.render
  | .label id => "L" ++ Nat.repr id.toNat ++ ":"
  | .line number => "LINE " ++ Nat.repr number.toNat
  | .frame => "FRAME"

end Instruction

/-- The opcodes of a body, its markers dropped. -/
def opcodesOf (body : List Instruction) : List Opcode :=
  body.filterMap Instruction.opcode?

structure Method where
  name : String
  result : JavaType
  parameters : List JavaType
  access : Access
  body : List Instruction
  deriving Repr, DecidableEq

namespace Method

/-- A method with an empty body and the type of a descriptor. -/
def ofDescriptor (name descriptor : String) (access : Access) : Except Error Method :=
  (MethodType.parse descriptor).map fun t => ⟨name, t.result, t.parameters, access, []⟩

def type (m : Method) : MethodType :=
  ⟨m.parameters, m.result⟩

def descriptor (m : Method) : String :=
  m.type.render

def opcodes (m : Method) : List Opcode :=
  opcodesOf m.body

end Method

structure JavaClass where
  name : String
  methods : List Method
  deriving Repr, DecidableEq

def JavaClass.method? (c : JavaClass) (name : String) : Option Method :=
  c.methods.find? (·.name == name)

end MethodSearch.Bytecode
