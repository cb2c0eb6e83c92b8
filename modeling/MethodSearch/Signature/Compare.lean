import MethodSearch.Bytecode.JavaType
import MethodSearch.Pattern.Scan
import MethodSearch.Signature.Basic

/-!
# Comparing a method with a signature

Names of classes do not survive obfuscation, so types are compared by category: every reference to a class falls into
one, every array into another, while primitives and `void` stay apart. The parts are checked from the cheapest to the
dearest: return category, access mask, parameter categories, opcodes. The first that fails says why the method is
rejected.
-/

namespace MethodSearch

open Bytecode

inductive Category where
  | void
  | primitive (base : Primitive)
  | object
  | array
  deriving Repr, DecidableEq

def Category.render : Category → String
  | .void => "void"
  | .primitive base => base.keyword
  | .object => "object"
  | .array => "array"

def Bytecode.JavaType.category : JavaType → Category
  | .void => .void
  | .primitive base => .primitive base
  | .object _ => .object
  | .array _ => .array

inductive Mismatch where
  | returnType (expected actual : Category)
  | access (expected actual : UInt16)
  | parameterCount (expected actual : Nat)
  | parameter (index : Nat) (expected actual : Category)
  | opcodePattern (length : Nat)
  deriving Repr, DecidableEq

def Mismatch.message : Mismatch → String
  | .returnType expected actual => "return type is " ++ actual.render ++ ", expected " ++ expected.render
  | .access expected actual =>
      "access flags are 0x" ++ Text.hex 4 actual.toNat ++ ", expected 0x" ++ Text.hex 4 expected.toNat
  | .parameterCount expected actual =>
      "takes " ++ Nat.repr actual ++ " parameters, expected " ++ Nat.repr expected
  | .parameter index expected actual =>
      "parameter " ++ Nat.repr index ++ " is " ++ actual.render ++ ", expected " ++ expected.render
  | .opcodePattern length => "opcode pattern of " ++ Nat.repr length ++ " opcodes not present"

/-- An open part passes. -/
def Constraint.check {α : Type} (c : Constraint α) (f : α → Except Mismatch Unit) : Except Mismatch Unit :=
  match c with
  | .any => .ok ()
  | .exactly a => f a

def checkReturn (actual expected : JavaType) : Except Mismatch Unit :=
  if expected.category = actual.category then .ok ()
  else .error (.returnType expected.category actual.category)

def checkAccess (actual expected : Access) : Except Mismatch Unit :=
  if expected = actual then .ok () else .error (.access expected.bits actual.bits)

/-- Compares position by position from `index` on, as far as both lists go. -/
def checkEach (index : Nat) : List JavaType → List JavaType → Except Mismatch Unit
  | a :: actual, e :: expected =>
      if e.category = a.category then checkEach (index + 1) actual expected
      else .error (.parameter index e.category a.category)
  | _, _ => .ok ()

def checkParameters (actual expected : List JavaType) : Except Mismatch Unit :=
  if expected.length = actual.length then checkEach 0 actual expected
  else .error (.parameterCount expected.length actual.length)

def checkOpcodes (body : List Instruction) : Constraint Pattern → Except Mismatch Scan
  | .any => .ok .unscanned
  | .exactly p =>
      match scan body p.opcodes with
      | .notFound => .error (.opcodePattern p.opcodes.length)
      | found => .ok found

/-- What the scan of a method that has the signature found, or why the method has not. -/
def Signature.compare (s : Signature) (m : Method) : Except Mismatch Scan := do
  s.returns.check (checkReturn m.result)
  s.accessors.check (checkAccess m.access)
  s.parameters.check (checkParameters m.parameters)
  checkOpcodes m.body s.opcodes

end MethodSearch
