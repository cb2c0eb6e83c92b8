import MethodSearch.Proofs.Signature.Checks

/-!
# Weaker signatures

A signature that asks for less is had by every method that has the other one, and its window ends no later.
-/

namespace MethodSearch

open Bytecode

/-- Asks for no more under the same name: each part is open or as it was, or else a part of the pattern. -/
structure Signature.Weaker (t u : Signature) : Prop where
  name : t.name = u.name
  returns : t.returns = .any ∨ t.returns = u.returns
  accessors : t.accessors = .any ∨ t.accessors = u.accessors
  parameters : t.parameters = .any ∨ t.parameters = u.parameters
  opcodes : t.opcodes = .any ∨ t.opcodes = u.opcodes ∨
    ∃ p q, t.opcodes = .exactly p ∧ u.opcodes = .exactly q ∧ p.opcodes <:+: q.opcodes

variable {t u : Signature} {m : Method} {found : Scan}

theorem Constraint.check_of_weaker {α : Type} {c d : Constraint α} (h : c = .any ∨ c = d)
    {f : α → Except Mismatch Unit} (hd : d.check f = .ok ()) : c.check f = .ok () := by
  rcases h with rfl | rfl
  · rfl
  · exact hd

theorem checkOpcodes_of_infix {body : List Instruction} {p q : Pattern} (h : p.opcodes <:+: q.opcodes)
    (hq : checkOpcodes body (.exactly q) = .ok found) :
    ∃ found', checkOpcodes body (.exactly p) = .ok found' ∧
      ∀ v w, found'.window? = some v → found.window? = some w → v.stop ≤ w.stop := by
  obtain ⟨rfl, hfound⟩ := checkOpcodes_exactly_eq_ok_iff.mp hq
  have hfound' : scan body p.opcodes ≠ .notFound :=
    scan_ne_notFound_iff.mpr (h.trans (scan_ne_notFound_iff.mp hfound))
  refine ⟨_, checkOpcodes_exactly_eq_ok_iff.mpr ⟨rfl, hfound'⟩, ?_⟩
  intro v w hv hw
  exact scan_stop_le_of_infix h (Scan.window?_eq_some_iff.mp hv) (Scan.window?_eq_some_iff.mp hw)

namespace Signature.Weaker

theorem checkShape (h : t.Weaker u) (hu : u.checkShape m = .ok ()) : t.checkShape m = .ok () := by
  obtain ⟨hreturns, haccessors, hparameters⟩ := checkShape_eq_ok_iff.mp hu
  exact checkShape_eq_ok_iff.mpr ⟨Constraint.check_of_weaker h.returns hreturns,
    Constraint.check_of_weaker h.accessors haccessors, Constraint.check_of_weaker h.parameters hparameters⟩

theorem checkOpcodes {body : List Instruction} (h : t.Weaker u)
    (hu : MethodSearch.checkOpcodes body u.opcodes = .ok found) :
    ∃ found', MethodSearch.checkOpcodes body t.opcodes = .ok found' ∧
      ∀ v w, found'.window? = some v → found.window? = some w → v.stop ≤ w.stop := by
  rcases h.opcodes with ht | ht | ⟨p, q, ht, hq, hwhole⟩
  · rw [ht]
    exact ⟨.unscanned, rfl, nofun⟩
  · rw [ht]
    refine ⟨found, hu, ?_⟩
    intro v w hv hw
    obtain rfl : v = w := Option.some.inj (hv.symm.trans hw)
    exact Nat.le_refl _
  · rw [ht]
    rw [hq] at hu
    exact checkOpcodes_of_infix hwhole hu

/-- A method that has the stronger signature has the weaker one, whose window ends no later. -/
theorem compare (h : t.Weaker u) (hu : u.compare m = .ok found) :
    ∃ found', t.compare m = .ok found' ∧
      ∀ v w, found'.window? = some v → found.window? = some w → v.stop ≤ w.stop := by
  obtain ⟨hshape, hopcodes⟩ := compare_eq_ok_iff.mp hu
  obtain ⟨found', hfound', hstop⟩ := h.checkOpcodes hopcodes
  exact ⟨found', compare_eq_ok_iff.mpr ⟨h.checkShape hshape, hfound'⟩, hstop⟩

end Signature.Weaker

end MethodSearch
