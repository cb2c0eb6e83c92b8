import MethodSearch.Bytecode.JavaClass
import MethodSearch.Pattern.Basic

/-!
# Signatures

The shape of a method to look for, under a name of its own. Each of its four parts is left open or fixed.
-/

namespace MethodSearch

open Bytecode

inductive Constraint (α : Type) where
  | any
  | exactly (value : α)
  deriving Repr, DecidableEq

namespace Constraint

variable {α : Type}

def isAny : Constraint α → Bool
  | .any => true
  | .exactly _ => false

def value? : Constraint α → Option α
  | .any => none
  | .exactly a => some a

def ofOption : Option α → Constraint α
  | none => .any
  | some a => .exactly a

end Constraint

structure Signature where
  name : String
  returns : Constraint JavaType
  accessors : Constraint Access
  parameters : Constraint (List JavaType)
  opcodes : Constraint Pattern
  deriving Repr, DecidableEq

namespace Signature

/-- A signature that every method has. -/
def unconstrained (name : String) : Signature :=
  ⟨name, .any, .any, .any, .any⟩

def isUnconstrained (s : Signature) : Bool :=
  s.returns.isAny && s.accessors.isAny && s.parameters.isAny && s.opcodes.isAny

/-- The text of a part, or a star where it is open. -/
def part {α : Type} (f : α → String) : Constraint α → String
  | .any => "*"
  | .exactly a => f a

/-- Name, access, parameters, return type and pattern on one line. -/
def render (s : Signature) : String :=
  s.name ++ " [" ++ part Access.render s.accessors ++ " (" ++
    part (fun ts => String.join (ts.map JavaType.render)) s.parameters ++ ")" ++
    part JavaType.render s.returns ++
    (match s.opcodes with
    | .any => ""
    | .exactly p => " \x7b" ++ p.render ++ "\x7d") ++ "]"

end Signature

end MethodSearch
