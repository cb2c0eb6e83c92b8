import MethodSearch.Proofs.Pattern.Markers
import MethodSearch.Signature.Compare

/-!
# The checks of a comparison

A comparison checks the shape of the method first and looks into its body last, so that its outcome is that of the
first check that fails, or else that of the scan.
-/

namespace MethodSearch

open Bytecode

variable {s : Signature} {m : Method}

/-- The checks that do not look into the body. -/
def Signature.checkShape (s : Signature) (m : Method) : Except Mismatch Unit := do
  s.returns.check (checkReturn m.result)
  s.accessors.check (checkAccess m.access)
  s.parameters.check (checkParameters m.parameters)

theorem Signature.compare_eq (s : Signature) (m : Method) :
    s.compare m = s.checkShape m >>= fun _ => checkOpcodes m.body s.opcodes := by
  rw [compare, checkShape]
  cases s.returns.check (checkReturn m.result) with
  | error reason => rfl
  | ok _ =>
      cases s.accessors.check (checkAccess m.access) with
      | error reason => rfl
      | ok _ => rfl

theorem Signature.compare_eq_ok_iff {scan : Scan} :
    s.compare m = .ok scan ↔ s.checkShape m = .ok () ∧ checkOpcodes m.body s.opcodes = .ok scan := by
  rw [compare_eq]
  cases h : s.checkShape m with
  | error reason =>
      constructor
      · nofun
      · rintro ⟨⟨⟩, -⟩
  | ok _ => exact (and_iff_right rfl).symm

theorem Signature.checkShape_eq_ok_iff :
    s.checkShape m = .ok () ↔
      s.returns.check (checkReturn m.result) = .ok () ∧ s.accessors.check (checkAccess m.access) = .ok () ∧
        s.parameters.check (checkParameters m.parameters) = .ok () := by
  rw [checkShape]
  cases s.returns.check (checkReturn m.result) with
  | error reason =>
      constructor
      · nofun
      · rintro ⟨⟨⟩, -⟩
  | ok _ =>
      cases s.accessors.check (checkAccess m.access) with
      | error reason =>
          constructor
          · nofun
          · rintro ⟨-, ⟨⟩, -⟩
      | ok _ => exact ⟨fun h => ⟨rfl, rfl, h⟩, fun h => h.2.2⟩

theorem checkOpcodes_exactly_eq_ok_iff {body : List Instruction} {p : Pattern} {found : Scan} :
    checkOpcodes body (.exactly p) = .ok found ↔ scan body p.opcodes = found ∧ found ≠ .notFound := by
  rw [checkOpcodes]
  split
  · next h =>
      constructor
      · nofun
      · rintro ⟨he, hne⟩
        exact absurd (he.symm.trans h) hne
  · next hne =>
      constructor
      · rintro ⟨⟩
        exact ⟨rfl, hne⟩
      · rintro ⟨rfl, -⟩
        rfl

/-- A method that has a signature with a pattern holds the pattern, where the scan says. -/
theorem Signature.scan_of_compare {found : Scan} {p : Pattern} (h : s.compare m = .ok found)
    (hp : s.opcodes = .exactly p) : scan m.body p.opcodes = found ∧ found ≠ .notFound := by
  obtain ⟨-, hscan⟩ := compare_eq_ok_iff.mp h
  rw [hp] at hscan
  exact checkOpcodes_exactly_eq_ok_iff.mp hscan

theorem Signature.unscanned_of_compare {found : Scan} (h : s.compare m = .ok found) (hany : s.opcodes = .any) :
    found = .unscanned := by
  obtain ⟨-, hscan⟩ := compare_eq_ok_iff.mp h
  rw [hany] at hscan
  exact (Except.ok.inj hscan).symm

/-- The method with the markers of its body dropped. -/
def Bytecode.Method.withoutMarkers (m : Method) : Method :=
  { m with body := Bytecode.withoutMarkers m.body }

theorem checkOpcodes_withoutMarkers (body : List Instruction) (opcodes : Constraint Pattern) :
    checkOpcodes (withoutMarkers body) opcodes = (checkOpcodes body opcodes).map (Scan.ranked body) := by
  cases opcodes with
  | any => rfl
  | exactly p =>
      rw [checkOpcodes, checkOpcodes, scan_withoutMarkers]
      cases scan body p.opcodes <;> rfl

/-- Without the markers, a comparison has the same outcome, its window apart. -/
theorem Signature.compare_withoutMarkers (s : Signature) (m : Method) :
    s.compare m.withoutMarkers = (s.compare m).map (Scan.ranked m.body) := by
  have hshape : s.checkShape m.withoutMarkers = s.checkShape m := rfl
  rw [compare_eq, compare_eq, hshape]
  cases s.checkShape m with
  | error reason => rfl
  | ok _ => exact checkOpcodes_withoutMarkers m.body s.opcodes

end MethodSearch
