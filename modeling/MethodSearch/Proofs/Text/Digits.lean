import MethodSearch.Text.Count

/-!
# Digits read back

The digits of a number are read back as the number, also with zeros in front.
-/

namespace MethodSearch.Text

variable {base d n : Nat}

theorem digit?_digitChar (hd : d < base) (hbase : base ≤ 16) : digit? base d.digitChar = some d := by
  have hvalue : ∀ d < 16, digit? 16 d.digitChar = some d := by decide
  have h16 := hvalue d (Nat.lt_of_lt_of_le hd hbase)
  simp only [digit?, Option.filter_eq_some_iff, decide_eq_true_eq] at h16 ⊢
  exact ⟨h16.1, hd⟩

theorem continueNat?_cons {c : Char} (hc : digit? base c = some d) (n : Nat) (s : List Char) :
    continueNat? base n (c :: s) = continueNat? base (n * base + d) s := by
  rw [continueNat?, hc]

theorem continueNat?_append (base n : Nat) (s t : List Char) :
    continueNat? base n (s ++ t) = (continueNat? base n s).bind fun m => continueNat? base m t := by
  induction s generalizing n with
  | nil => rfl
  | cons c s ih =>
      rw [List.cons_append, continueNat?, continueNat?]
      cases digit? base c with
      | none => rfl
      | some d => exact ih _

theorem continueNat?_toDigits (hlow : 1 < base) (hbase : base ≤ 16) (n : Nat) :
    continueNat? base 0 (Nat.toDigits base n) = some n := by
  induction n using Nat.strongRecOn with
  | ind n ih =>
      by_cases hlt : n < base
      · rw [Nat.toDigits_of_lt_base hlt, continueNat?_cons (digit?_digitChar hlt hbase), Nat.zero_mul, Nat.zero_add,
          continueNat?]
      · have hle : base ≤ n := Nat.le_of_not_lt hlt
        have hmod : n % base < base := Nat.mod_lt n (by omega)
        have hdiv : n / base * base + n % base = n := Nat.div_add_mod' n base
        rw [Nat.toDigits_of_base_le hlow hle, continueNat?_append, ih _ (Nat.div_lt_self (by omega) hlow),
          Option.bind_some, continueNat?_cons (digit?_digitChar hmod hbase), hdiv, continueNat?]

theorem continueNat?_zeros (hbase : 0 < base) (k : Nat) (s : List Char) :
    continueNat? base 0 (List.replicate k '0' ++ s) = continueNat? base 0 s := by
  have hzero : digit? base '0' = some 0 := by simp [digit?, hbase]
  induction k with
  | zero => rfl
  | succ k ih => rw [List.replicate_succ, List.cons_append, continueNat?_cons hzero, Nat.zero_mul, ih]

/-- The characters of a number are digits of the base. -/
theorem exists_digit_of_mem_toDigits (hlow : 1 < base) {c : Char} (hc : c ∈ Nat.toDigits base n) :
    ∃ d < base, c = d.digitChar := by
  induction n using Nat.strongRecOn with
  | ind n ih =>
      by_cases hlt : n < base
      · rw [Nat.toDigits_of_lt_base hlt, List.mem_singleton] at hc
        exact ⟨n, hlt, hc⟩
      · have hle : base ≤ n := Nat.le_of_not_lt hlt
        rw [Nat.toDigits_of_base_le hlow hle, List.mem_append, List.mem_singleton] at hc
        rcases hc with hc | rfl
        · exact ih _ (Nat.div_lt_self (by omega) hlow) hc
        · exact ⟨n % base, Nat.mod_lt n (by omega), rfl⟩

theorem exists_digit_of_mem_hex {width : Nat} {c : Char} (hc : c ∈ (hex width n).toList) :
    ∃ d < 16, c = d.digitChar := by
  rw [hex, String.toList_ofList, List.mem_append] at hc
  rcases hc with hc | hc
  · exact ⟨0, by decide, List.eq_of_mem_replicate hc⟩
  · exact exists_digit_of_mem_toDigits (by decide) hc

theorem readNat?_toDigits (hlow : 1 < base) (hbase : base ≤ 16) (n : Nat) :
    readNat? base (Nat.toDigits base n) = some n := by
  rw [readNat?, if_neg (by simp [Nat.toDigits_ne_nil])]
  exact continueNat?_toDigits hlow hbase n

theorem readNat?_hex (width n : Nat) : readNat? 16 (hex width n).toList = some n := by
  have hne : Nat.toDigits 16 n ≠ [] := Nat.toDigits_ne_nil
  rw [hex, String.toList_ofList, readNat?, if_neg (by simp [hne]), continueNat?_zeros (by decide)]
  exact continueNat?_toDigits (by decide) (by decide) n

end MethodSearch.Text
