import Mathlib.Data.List.Forall2
import MethodSearch.Proofs.Signature.Checks

/-!
# Methods and signatures of one shape

A tool that renames classes and methods leaves the shape of every type as it was: primitives and `void` stay, a
reference becomes some reference and an array some array. No comparison can tell.
-/

namespace MethodSearch

open Bytecode

namespace Bytecode

/-- Types of one shape, whatever the class names, the elements and the dimensions. -/
inductive JavaType.Alike : JavaType → JavaType → Prop where
  | void : Alike .void .void
  | primitive (base : Primitive) : Alike (.primitive base) (.primitive base)
  | object (name name' : String) : Alike (.object name) (.object name')
  | array (element element' : JavaType) : Alike (.array element) (.array element')

/-- Methods with one mask and one body, of types alike and of any name. -/
structure Method.Alike (m m' : Method) : Prop where
  result : m.result.Alike m'.result
  parameters : List.Forall₂ JavaType.Alike m.parameters m'.parameters
  access : m.access = m'.access
  body : m.body = m'.body

/-- Classes of any name whose methods are alike one by one. -/
def JavaClass.Alike (c c' : JavaClass) : Prop :=
  List.Forall₂ Method.Alike c.methods c'.methods

end Bytecode

/-- Both are open, or fixed to related values. -/
inductive Constraint.Related {α : Type} (R : α → α → Prop) : Constraint α → Constraint α → Prop where
  | any : Related R .any .any
  | exactly {a b : α} (h : R a b) : Related R (.exactly a) (.exactly b)

/-- Signatures of one name, one mask and one pattern, whose types are alike. -/
structure Signature.Alike (s s' : Signature) : Prop where
  name : s.name = s'.name
  returns : s.returns.Related JavaType.Alike s'.returns
  accessors : s.accessors = s'.accessors
  parameters : s.parameters.Related (List.Forall₂ JavaType.Alike) s'.parameters
  opcodes : s.opcodes = s'.opcodes

theorem Bytecode.JavaType.Alike.category_eq {t t' : JavaType} (h : t.Alike t') : t.category = t'.category := by
  cases h <;> rfl

theorem Constraint.Related.check_eq {α : Type} {R : α → α → Prop} {c c' : Constraint α} (h : c.Related R c')
    {f f' : α → Except Mismatch Unit} (hf : ∀ a b, R a b → f a = f' b) : c.check f = c'.check f' := by
  cases h with
  | any => rfl
  | exactly hab => exact hf _ _ hab

theorem checkReturn_alike {actual actual' expected expected' : JavaType} (ha : actual.Alike actual')
    (he : expected.Alike expected') : checkReturn actual expected = checkReturn actual' expected' := by
  rw [checkReturn, checkReturn, ha.category_eq, he.category_eq]

theorem checkEach_alike {actual actual' expected expected' : List JavaType}
    (ha : List.Forall₂ JavaType.Alike actual actual') (he : List.Forall₂ JavaType.Alike expected expected')
    (index : Nat) : checkEach index actual expected = checkEach index actual' expected' := by
  induction ha generalizing expected expected' index with
  | nil => cases he <;> rfl
  | cons hat _ ih =>
      cases he with
      | nil => rfl
      | cons het he => rw [checkEach, checkEach, hat.category_eq, het.category_eq, ih he]

theorem checkParameters_alike {actual actual' expected expected' : List JavaType}
    (ha : List.Forall₂ JavaType.Alike actual actual') (he : List.Forall₂ JavaType.Alike expected expected') :
    checkParameters actual expected = checkParameters actual' expected' := by
  rw [checkParameters, checkParameters, ha.length_eq, he.length_eq, checkEach_alike ha he]

theorem Signature.Alike.checkShape_eq {s s' : Signature} {m m' : Method} (hs : s.Alike s') (hm : m.Alike m') :
    s.checkShape m = s'.checkShape m' := by
  have hreturns : s.returns.check (checkReturn m.result) = s'.returns.check (checkReturn m'.result) :=
    hs.returns.check_eq fun _ _ he => checkReturn_alike hm.result he
  have hparameters : s.parameters.check (checkParameters m.parameters) =
      s'.parameters.check (checkParameters m'.parameters) :=
    hs.parameters.check_eq fun _ _ he => checkParameters_alike hm.parameters he
  rw [Signature.checkShape, Signature.checkShape, hreturns, hs.accessors, hm.access, hparameters]

/-- A comparison has the same outcome on both sides, with the same reason where it fails. -/
theorem Signature.Alike.compare_eq {s s' : Signature} {m m' : Method} (hs : s.Alike s') (hm : m.Alike m') :
    s.compare m = s'.compare m' := by
  rw [Signature.compare_eq, Signature.compare_eq, hs.checkShape_eq hm, hs.opcodes, hm.body]

end MethodSearch
