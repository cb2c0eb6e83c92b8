/-!
# Types and their descriptors

A type is `void`, one of eight primitives, a reference to a class or an array. Its descriptor is `V`, one
letter, `L` and the class name up to a semicolon, or `[` and the descriptor of the element. The descriptor of a method
has the parameter types between brackets, then the type that is returned.
-/

namespace MethodSearch.Bytecode

inductive Primitive where
  | byte
  | char
  | double
  | float
  | int
  | long
  | short
  | boolean
  deriving Repr, DecidableEq

namespace Primitive

def all : List Primitive :=
  [.byte, .char, .double, .float, .int, .long, .short, .boolean]

def letter : Primitive → Char
  | .byte => 'B'
  | .char => 'C'
  | .double => 'D'
  | .float => 'F'
  | .int => 'I'
  | .long => 'J'
  | .short => 'S'
  | .boolean => 'Z'

def keyword : Primitive → String
  | .byte => "byte"
  | .char => "char"
  | .double => "double"
  | .float => "float"
  | .int => "int"
  | .long => "long"
  | .short => "short"
  | .boolean => "boolean"

def ofLetter? (c : Char) : Option Primitive :=
  all.find? (·.letter == c)

def ofKeyword? (s : String) : Option Primitive :=
  all.find? (·.keyword == s)

end Primitive

inductive JavaType where
  | void
  | primitive (base : Primitive)
  | object (name : String)
  | array (element : JavaType)
  deriving Repr, DecidableEq

namespace JavaType

/-- How many arrays are wrapped around the innermost element. -/
def dimensions : JavaType → Nat
  | .array element => element.dimensions + 1
  | _ => 0

def chars : JavaType → List Char
  | .void => ['V']
  | .primitive base => [base.letter]
  | .object name => 'L' :: name.toList ++ [';']
  | .array element => '[' :: element.chars

def render (t : JavaType) : String :=
  String.ofList t.chars

/-- Wraps a type into so many arrays. -/
def wrap : Nat → JavaType → JavaType
  | 0, t => t
  | n + 1, t => .array (wrap n t)

end JavaType

structure MethodType where
  parameters : List JavaType
  result : JavaType
  deriving Repr, DecidableEq

namespace MethodType

def chars (m : MethodType) : List Char :=
  '(' :: m.parameters.flatMap JavaType.chars ++ ')' :: m.result.chars

def render (m : MethodType) : String :=
  String.ofList m.chars

end MethodType

end MethodSearch.Bytecode
