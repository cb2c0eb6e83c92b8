import MethodSearch.Proofs.Signature.Checks
import MethodSearch.Proofs.Text.FirstFault

/-!
# Outcomes of a comparison

A method has a signature exactly if each part of the signature is open or met by the method. Its scan is then that of
the pattern. Otherwise the comparison names the first part that is not met, what was asked for and what is there.
-/

namespace MethodSearch

open Bytecode

variable {s : Signature} {m : Method} {reason : Mismatch}

/-- Open, or fixed to a value with the property. -/
def Constraint.Admits {α : Type} (c : Constraint α) (p : α → Prop) : Prop :=
  ∀ a, c = .exactly a → p a

/-- As many types, of one category position by position. -/
def SameCategories : List JavaType → List JavaType → Prop :=
  List.Forall₂ fun t u => t.category = u.category

namespace Signature

def ReturnMet (s : Signature) (m : Method) : Prop :=
  s.returns.Admits fun t => t.category = m.result.category

def AccessMet (s : Signature) (m : Method) : Prop :=
  s.accessors.Admits fun a => a.bits = m.access.bits

def ParametersMet (s : Signature) (m : Method) : Prop :=
  s.parameters.Admits fun ts => SameCategories ts m.parameters

def OpcodesMet (s : Signature) (m : Method) : Prop :=
  s.opcodes.Admits fun p => p.opcodes <:+: opcodesOf m.body

structure MetBy (s : Signature) (m : Method) : Prop where
  returns : s.ReturnMet m
  accessors : s.AccessMet m
  parameters : s.ParametersMet m
  opcodes : s.OpcodesMet m

end Signature

/-- The types at the position differ in category, and those at earlier positions do not. -/
structure DifferFirst (ts us : List JavaType) (index : Nat) (t u : JavaType) : Prop where
  left : ts[index]? = some t
  right : us[index]? = some u
  differ : t.category ≠ u.category
  least : ∀ j < index, ∀ t' u' : JavaType, ts[j]? = some t' → us[j]? = some u' → t'.category = u'.category

/-- Every part before the one that is named is met, and that one is not. -/
inductive Signature.RefusedFor (s : Signature) (m : Method) : Mismatch → Prop where
  | returnType {t : JavaType} :
      s.returns = .exactly t → t.category ≠ m.result.category →
      RefusedFor s m (.returnType t.category m.result.category)
  | access {a : Access} :
      s.ReturnMet m → s.accessors = .exactly a → a.bits ≠ m.access.bits →
      RefusedFor s m (.access a.bits m.access.bits)
  | parameterCount {ts : List JavaType} :
      s.ReturnMet m → s.AccessMet m → s.parameters = .exactly ts → ts.length ≠ m.parameters.length →
      RefusedFor s m (.parameterCount ts.length m.parameters.length)
  | parameter {ts : List JavaType} {index : Nat} {t u : JavaType} :
      s.ReturnMet m → s.AccessMet m → s.parameters = .exactly ts → ts.length = m.parameters.length →
      DifferFirst ts m.parameters index t u →
      RefusedFor s m (.parameter index t.category u.category)
  | opcodePattern {p : Pattern} :
      s.ReturnMet m → s.AccessMet m → s.ParametersMet m → s.opcodes = .exactly p →
      ¬p.opcodes <:+: opcodesOf m.body →
      RefusedFor s m (.opcodePattern p.opcodes.length)

/-! ## Single checks -/

namespace Constraint

variable {α : Type} {c : Constraint α} {f : α → Except Mismatch Unit}

theorem check_eq_ok_iff : c.check f = .ok () ↔ c.Admits fun a => f a = .ok () := by
  cases c with
  | any => exact iff_of_true rfl nofun
  | exactly a => simp [check, Admits]

theorem check_eq_error_iff : c.check f = .error reason ↔ ∃ a, c = .exactly a ∧ f a = .error reason := by
  cases c with
  | any => simp [check]
  | exactly a => simp [check]

theorem admits_congr {p q : α → Prop} (h : ∀ a, p a ↔ q a) : c.Admits p ↔ c.Admits q :=
  forall₂_congr fun a _ => h a

end Constraint

section Checks

variable {t u : JavaType} {a b : Access} {ts us : List JavaType} {body : List Instruction} {index : Nat}

theorem checkReturn_eq_ok_iff : checkReturn u t = .ok () ↔ t.category = u.category := by
  by_cases h : t.category = u.category <;> simp [checkReturn, h]

theorem checkReturn_eq_error_iff :
    checkReturn u t = .error reason ↔ t.category ≠ u.category ∧ reason = .returnType t.category u.category := by
  by_cases h : t.category = u.category <;> simp [checkReturn, h, eq_comm]

theorem checkAccess_eq_ok_iff : checkAccess b a = .ok () ↔ a.bits = b.bits := by
  obtain ⟨bits⟩ := a
  obtain ⟨bits'⟩ := b
  by_cases h : bits = bits' <;> simp [checkAccess, h]

theorem checkAccess_eq_error_iff :
    checkAccess b a = .error reason ↔ a.bits ≠ b.bits ∧ reason = .access a.bits b.bits := by
  obtain ⟨bits⟩ := a
  obtain ⟨bits'⟩ := b
  by_cases h : bits = bits' <;> simp [checkAccess, h, eq_comm]

theorem differFirst_cons_of_ne {t' u' : JavaType} (h : t.category ≠ u.category) :
    DifferFirst (t :: ts) (u :: us) index t' u' ↔ index = 0 ∧ t' = t ∧ u' = u := by
  constructor
  · intro hd
    cases index with
    | zero => exact ⟨rfl, (Option.some.inj hd.left).symm, (Option.some.inj hd.right).symm⟩
    | succ index => exact absurd (hd.least 0 (Nat.succ_pos index) t u rfl rfl) h
  · rintro ⟨rfl, rfl, rfl⟩
    exact ⟨rfl, rfl, h, nofun⟩

theorem differFirst_cons_of_eq {t' u' : JavaType} (h : t.category = u.category) :
    DifferFirst (t :: ts) (u :: us) index t' u' ↔ ∃ k, index = k + 1 ∧ DifferFirst ts us k t' u' := by
  constructor
  · intro hd
    cases index with
    | zero =>
        obtain rfl := Option.some.inj hd.left
        obtain rfl := Option.some.inj hd.right
        exact absurd h hd.differ
    | succ index =>
        refine ⟨index, rfl, hd.left, hd.right, hd.differ, ?_⟩
        intro j hj
        exact hd.least (j + 1) (Nat.succ_lt_succ hj)
  · rintro ⟨k, rfl, hd⟩
    refine ⟨hd.left, hd.right, hd.differ, ?_⟩
    rintro (_ | j) hj t'' u'' ht hu
    · obtain rfl := Option.some.inj ht
      obtain rfl := Option.some.inj hu
      exact h
    · exact hd.least j (Nat.lt_of_succ_lt_succ hj) t'' u'' ht hu

theorem checkEach_eq_ok_iff (index : Nat) (h : ts.length = us.length) :
    checkEach index us ts = .ok () ↔ SameCategories ts us := by
  induction ts generalizing us index with
  | nil =>
      obtain rfl := List.length_eq_zero_iff.mp h.symm
      exact iff_of_true rfl .nil
  | cons t ts ih =>
      obtain ⟨u, us, rfl⟩ := List.exists_cons_of_length_eq_add_one h.symm
      rw [checkEach, SameCategories, List.forall₂_cons]
      by_cases he : t.category = u.category
      · rw [if_pos he, ih (index + 1) (Nat.succ.inj h), and_iff_right he, SameCategories]
      · rw [if_neg he]
        exact iff_of_false nofun fun hs => he hs.1

theorem checkEach_eq_error_iff (index : Nat) :
    checkEach index us ts = .error reason ↔
      ∃ k t u, DifferFirst ts us k t u ∧ reason = .parameter (index + k) t.category u.category := by
  fun_induction checkEach index us ts with
  | case1 index u us t ts he ih =>
      simp only [ih, differFirst_cons_of_eq he]
      constructor
      · rintro ⟨k, t', u', hd, rfl⟩
        exact ⟨k + 1, t', u', ⟨k, rfl, hd⟩, by rw [Nat.add_right_comm, Nat.add_assoc]⟩
      · rintro ⟨_, t', u', ⟨k, rfl, hd⟩, rfl⟩
        exact ⟨k, t', u', hd, by rw [Nat.add_right_comm, Nat.add_assoc]⟩
  | case2 index u us t ts he => simp [differFirst_cons_of_ne he, eq_comm]
  | case3 us index ts hnil =>
      refine iff_of_false nofun ?_
      rintro ⟨k, t, u, hd, -⟩
      cases us with
      | nil => cases hd.right
      | cons u us =>
          cases ts with
          | nil => cases hd.left
          | cons t ts => exact hnil u us t ts rfl rfl

theorem checkParameters_eq_ok_iff : checkParameters us ts = .ok () ↔ SameCategories ts us := by
  by_cases h : ts.length = us.length
  · rw [checkParameters, if_pos h, checkEach_eq_ok_iff 0 h]
  · rw [checkParameters, if_neg h]
    exact iff_of_false nofun fun hs => h hs.length_eq

theorem checkParameters_eq_error_iff :
    checkParameters us ts = .error reason ↔
      ts.length ≠ us.length ∧ reason = .parameterCount ts.length us.length ∨
        ts.length = us.length ∧ ∃ k t u, DifferFirst ts us k t u ∧ reason = .parameter k t.category u.category := by
  by_cases h : ts.length = us.length
  · simp [checkParameters, h, checkEach_eq_error_iff]
  · simp [checkParameters, h, eq_comm]

theorem checkOpcodes_eq_error_iff {c : Constraint Pattern} :
    checkOpcodes body c = .error reason ↔
      ∃ p, c = .exactly p ∧ ¬p.opcodes <:+: opcodesOf body ∧ reason = .opcodePattern p.opcodes.length := by
  cases c with
  | any => simp [checkOpcodes]
  | exactly p =>
      rw [checkOpcodes]
      split
      · next h => simp [scan_eq_notFound_iff.mp h, eq_comm]
      · next h => simp [scan_ne_notFound_iff.mp h]

theorem exists_checkOpcodes_eq_ok_iff {c : Constraint Pattern} :
    (∃ found, checkOpcodes body c = .ok found) ↔ c.Admits fun p => p.opcodes <:+: opcodesOf body := by
  cases c with
  | any => exact iff_of_true ⟨.unscanned, rfl⟩ nofun
  | exactly p => simp [checkOpcodes_exactly_eq_ok_iff, Constraint.Admits, scan_ne_notFound_iff]

end Checks

/-! ## The comparison -/

namespace Signature

variable {a : Unit}

theorem check_returns_eq_ok_iff : s.returns.check (checkReturn m.result) = .ok a ↔ s.ReturnMet m :=
  Constraint.check_eq_ok_iff.trans (Constraint.admits_congr fun _ => checkReturn_eq_ok_iff)

theorem check_accessors_eq_ok_iff : s.accessors.check (checkAccess m.access) = .ok a ↔ s.AccessMet m :=
  Constraint.check_eq_ok_iff.trans (Constraint.admits_congr fun _ => checkAccess_eq_ok_iff)

theorem check_parameters_eq_ok_iff : s.parameters.check (checkParameters m.parameters) = .ok a ↔ s.ParametersMet m :=
  Constraint.check_eq_ok_iff.trans (Constraint.admits_congr fun _ => checkParameters_eq_ok_iff)

theorem exists_compare_eq_ok_iff : (∃ found, s.compare m = .ok found) ↔ s.MetBy m := by
  simp only [compare_eq_ok_iff, exists_and_left, checkShape_eq_ok_iff, check_returns_eq_ok_iff,
    check_accessors_eq_ok_iff, check_parameters_eq_ok_iff, exists_checkOpcodes_eq_ok_iff]
  constructor
  · rintro ⟨⟨hreturns, haccessors, hparameters⟩, hopcodes⟩
    exact ⟨hreturns, haccessors, hparameters, hopcodes⟩
  · rintro ⟨hreturns, haccessors, hparameters, hopcodes⟩
    exact ⟨⟨hreturns, haccessors, hparameters⟩, hopcodes⟩

theorem compare_eq_error_iff : s.compare m = .error reason ↔ s.RefusedFor m reason := by
  simp only [compare, Except.bind_eq_error_iff, Constraint.check_eq_error_iff, check_returns_eq_ok_iff,
    check_accessors_eq_ok_iff, check_parameters_eq_ok_iff, checkReturn_eq_error_iff, checkAccess_eq_error_iff,
    checkParameters_eq_error_iff, checkOpcodes_eq_error_iff, exists_const]
  constructor
  · rintro (⟨t, ht, hne, rfl⟩ | ⟨hreturns, ⟨a, ha, hne, rfl⟩ | ⟨haccessors, hrest⟩⟩)
    · exact .returnType ht hne
    · exact .access hreturns ha hne
    · rcases hrest with ⟨ts, hts, ⟨hne, rfl⟩ | ⟨hlength, k, t, u, hfirst, rfl⟩⟩ | ⟨hparameters, p, hp, hnot, rfl⟩
      · exact .parameterCount hreturns haccessors hts hne
      · exact .parameter hreturns haccessors hts hlength hfirst
      · exact .opcodePattern hreturns haccessors hparameters hp hnot
  · intro h
    cases h with
    | returnType ht hne => exact .inl ⟨_, ht, hne, rfl⟩
    | access hreturns ha hne => exact .inr ⟨hreturns, .inl ⟨_, ha, hne, rfl⟩⟩
    | parameterCount hreturns haccessors hts hne =>
        exact .inr ⟨hreturns, .inr ⟨haccessors, .inl ⟨_, hts, .inl ⟨hne, rfl⟩⟩⟩⟩
    | parameter hreturns haccessors hts hlength hfirst =>
        exact .inr ⟨hreturns, .inr ⟨haccessors, .inl ⟨_, hts, .inr ⟨hlength, _, _, _, hfirst, rfl⟩⟩⟩⟩
    | opcodePattern hreturns haccessors hparameters hp hnot =>
        exact .inr ⟨hreturns, .inr ⟨haccessors, .inr ⟨hparameters, _, hp, hnot, rfl⟩⟩⟩

/-- The scan of a method that has the signature: none without a pattern, else the one that finds the pattern. -/
theorem scan_of_compare_cases {found : Scan} (h : s.compare m = .ok found) :
    (found = .unscanned ↔ s.opcodes = .any) ∧ found ≠ .notFound ∧
      ∀ p, s.opcodes = .exactly p → ∃ w, scan m.body p.opcodes = .found w ∧ found = .found w := by
  cases hp : s.opcodes with
  | any =>
      obtain rfl := unscanned_of_compare h hp
      exact ⟨iff_of_true rfl rfl, nofun, nofun⟩
  | exactly p =>
      obtain ⟨hfound, hne⟩ := scan_of_compare h hp
      cases found with
      | unscanned => exact absurd hfound (scan_ne_unscanned _ _)
      | notFound => exact absurd rfl hne
      | found w =>
          refine ⟨iff_of_false nofun nofun, nofun, ?_⟩
          rintro q ⟨⟩
          exact ⟨w, hfound, rfl⟩

/-- A method has a signature exactly if all four parts are met, and its scan is then that of the pattern if there is
one. Otherwise the comparison says which part is the first that is not met. -/
theorem compare_outcome (s : Signature) (m : Method) :
    ((∃ found, s.compare m = .ok found) ↔ s.MetBy m) ∧
      (∀ found, s.compare m = .ok found →
        (found = .unscanned ↔ s.opcodes = .any) ∧ found ≠ .notFound ∧
          ∀ p, s.opcodes = .exactly p → ∃ w, scan m.body p.opcodes = .found w ∧ found = .found w) ∧
      ∀ reason, s.compare m = .error reason ↔ s.RefusedFor m reason :=
  ⟨exists_compare_eq_ok_iff, fun _ => scan_of_compare_cases, fun _ => compare_eq_error_iff⟩

end Signature

end MethodSearch
