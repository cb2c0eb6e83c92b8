import Mathlib.Data.List.Forall2
import Mathlib.Data.Nat.Digits.Defs
import MethodSearch.Proofs.Text.Runs
import MethodSearch.Text.Count

/-!
# Numerals

A numeral is one or more digits of a base, as small letters or as capitals. The reader takes numerals and nothing else,
each for the number that it is written for.
-/

namespace MethodSearch.Text

variable {base n d : Nat} {c : Char} {s : List Char}

/-- A character is the digit of a number below the base, in either case. -/
def IsDigit (base : Nat) (c : Char) (d : Nat) : Prop :=
  d < base ∧ c.toUpper = d.digitChar.toUpper

/-- One or more digits with the number they are written for. The first digit counts most. -/
def IsNumeral (base : Nat) (s : List Char) (n : Nat) : Prop :=
  ∃ ds : List Nat, ds ≠ [] ∧ List.Forall₂ (IsDigit base) s ds ∧ n = Nat.ofDigits base ds.reverse

/-- All digits stand up to the letter `f`, which is number 102. -/
theorem digit?_ofNat : ∀ k < 103, ∀ d < 16,
    digit? 16 (Char.ofNat k) = some d ↔ (Char.ofNat k).toUpper = d.digitChar.toUpper := by
  decide +kernel

theorem toNat_lt_of_digit? (h : digit? 16 c = some d) : c.toNat < 103 := by
  simp only [digit?, Option.filter_eq_some_iff] at h
  have hdigits (e : Char) (he : c ≤ e) (hsmall : e.toNat < 103) : c.toNat < 103 :=
    Nat.lt_of_le_of_lt (UInt32.le_iff_toNat_le.mp he) hsmall
  split at h
  · next hc => exact hdigits '9' hc.2 (by decide)
  · split at h
    · next hc => exact hdigits 'f' hc.2 (by decide)
    · split at h
      · next hc => exact hdigits 'F' hc.2 (by decide)
      · cases h.1

theorem toNat_lt_of_toUpper (hd : d < 16) (h : c.toUpper = d.digitChar.toUpper) : c.toNat < 103 := by
  have hcapitals : ∀ d < 16, d.digitChar.toUpper.toNat < 71 := by decide
  have hd := hcapitals d hd
  rw [← h] at hd
  rcases toUpper_cases c with hc | ⟨-, -, hc⟩
  · rw [hc] at hd
    omega
  · omega

theorem digit?_eq_some_iff (hbase : base ≤ 16) : digit? base c = some d ↔ IsDigit base c d := by
  have hsixteen : digit? base c = some d ↔ d < base ∧ digit? 16 c = some d := by
    simp only [digit?, Option.filter_eq_some_iff, decide_eq_true_eq]
    constructor
    · rintro ⟨hvalue, hd⟩
      exact ⟨hd, hvalue, Nat.lt_of_lt_of_le hd hbase⟩
    · rintro ⟨hd, hvalue, -⟩
      exact ⟨hvalue, hd⟩
  rw [hsixteen, IsDigit, and_congr_right_iff]
  intro hd
  have hd : d < 16 := Nat.lt_of_lt_of_le hd hbase
  constructor
  · intro h
    have hc := (digit?_ofNat c.toNat (toNat_lt_of_digit? h) d hd).mp
    rw [Char.ofNat_toNat] at hc
    exact hc h
  · intro h
    have hc := (digit?_ofNat c.toNat (toNat_lt_of_toUpper hd h) d hd).mpr
    rw [Char.ofNat_toNat] at hc
    exact hc h

theorem isDigit_toUpper (c : Char) : IsDigit base c.toUpper d ↔ IsDigit base c d := by
  rw [IsDigit, IsDigit, toUpper_toUpper]

/-- The digits of the base ten have no letters. -/
theorem IsDigit.decimal (h : IsDigit 10 c d) : c.isDigit = true := by
  have hdecimal : ∀ d < 10,
      d.digitChar.toUpper = d.digitChar ∧ d.digitChar.toNat < 65 ∧ d.digitChar.isDigit = true := by
    decide
  obtain ⟨hupper, hlt, hdigit⟩ := hdecimal d h.1
  rw [eq_of_toUpper hlt (h.2.trans hupper), hdigit]

/-! ## Numbers -/

/-- Digits behind a number that was read push it up. -/
theorem continueNat?_eq_some_iff (hbase : base ≤ 16) {m : Nat} :
    continueNat? base m s = some n ↔
      ∃ ds, List.Forall₂ (IsDigit base) s ds ∧ n = Nat.ofDigits base ds.reverse + base ^ ds.length * m := by
  induction s generalizing m with
  | nil =>
      rw [continueNat?, Option.some.injEq]
      constructor
      · rintro rfl
        exact ⟨[], .nil, by simp⟩
      · rintro ⟨ds, hds, rfl⟩
        cases hds
        simp
  | cons c s ih =>
      have hvalue (d : Nat) (ds : List Nat) : Nat.ofDigits base (d :: ds).reverse + base ^ (d :: ds).length * m =
          Nat.ofDigits base ds.reverse + base ^ ds.length * (m * base + d) := by
        rw [Nat.ofDigits_reverse_cons, List.length_cons, Nat.pow_succ]
        ring
      constructor
      · intro h
        rw [continueNat?] at h
        split at h
        · next d hd =>
            obtain ⟨ds, hds, rfl⟩ := ih.mp h
            exact ⟨d :: ds, .cons ((digit?_eq_some_iff hbase).mp hd) hds, (hvalue d ds).symm⟩
        · cases h
      · rintro ⟨es, hes, rfl⟩
        obtain ⟨d, ds, hd, hds, rfl⟩ := List.forall₂_cons_left_iff.mp hes
        rw [continueNat?, (digit?_eq_some_iff hbase).mpr hd]
        exact ih.mpr ⟨ds, hds, hvalue d ds⟩

theorem readNat?_eq_some_iff (hbase : base ≤ 16) : readNat? base s = some n ↔ IsNumeral base s n := by
  have hempty {ds : List Nat} (hds : List.Forall₂ (IsDigit base) s ds) : s = [] ↔ ds = [] := by
    rw [← List.length_eq_zero_iff, hds.length_eq, List.length_eq_zero_iff]
  rw [readNat?, IsNumeral]
  constructor
  · intro h
    split at h
    · cases h
    · next hne =>
        obtain ⟨ds, hds, rfl⟩ := (continueNat?_eq_some_iff hbase).mp h
        exact ⟨ds, fun hnil => hne (List.isEmpty_iff.mpr ((hempty hds).mpr hnil)), hds, by simp⟩
  · rintro ⟨ds, hne, hds, rfl⟩
    rw [if_neg fun hnil => hne ((hempty hds).mp (List.isEmpty_iff.mp hnil)), continueNat?_eq_some_iff hbase]
    exact ⟨ds, hds, by simp⟩

theorem isNumeral_map_toUpper : IsNumeral base (s.map Char.toUpper) n ↔ IsNumeral base s n := by
  simp only [IsNumeral, List.forall₂_map_left_iff, isDigit_toUpper]

theorem IsNumeral.exists_digit (h : IsNumeral base s n) (hc : c ∈ s) : ∃ d, IsDigit base c d := by
  obtain ⟨ds, -, hds, -⟩ := h
  induction hds with
  | nil => cases hc
  | cons hd _ ih =>
      rcases List.mem_cons.mp hc with rfl | hc
      · exact ⟨_, hd⟩
      · exact ih hc

end MethodSearch.Text
