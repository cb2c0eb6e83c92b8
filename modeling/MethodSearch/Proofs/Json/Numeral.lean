import MethodSearch.Json.Numeral
import MethodSearch.Proofs.Text.Digits

/-!
# Numerals read back

A numeral that is written and read again is the same numeral, part for part, as long as nothing follows that would
continue it.
-/

namespace MethodSearch.Json.Numeral

variable {n : Nat} {ds : List (Fin 10)} {rest : List Char}

theorem digitsOf_of_lt (h : n < 10) : digitsOf n = [Fin.ofNat 10 n] := by
  have hdigit : ∀ n < 10, Fin.ofNat 10 (n.digitChar.toNat - '0'.toNat) = Fin.ofNat 10 n := by decide
  rw [digitsOf, Nat.toDigits_of_lt_base h, List.map_singleton, hdigit n h]

theorem digitsOf_of_le (h : 10 ≤ n) : digitsOf n = digitsOf (n / 10) ++ [Fin.ofNat 10 (n % 10)] := by
  rw [← digitsOf_of_lt (Nat.mod_lt n (by decide)), digitsOf, Nat.toDigits_of_base_le (by decide) h, List.map_append,
    digitsOf, digitsOf, Nat.toDigits_of_lt_base (Nat.mod_lt n (by decide))]

theorem toDigits_eq_map (n : Nat) : Nat.toDigits 10 n = (digitsOf n).map digitChar := by
  have hdigit : ∀ d < 10, digitChar (Fin.ofNat 10 (d.digitChar.toNat - '0'.toNat)) = d.digitChar := by decide
  have hself : (Nat.toDigits 10 n).map (fun c => digitChar (Fin.ofNat 10 (c.toNat - '0'.toNat))) =
      (Nat.toDigits 10 n).map id := by
    refine List.map_congr_left fun c hc => ?_
    obtain ⟨d, hd, rfl⟩ := Text.exists_digit_of_mem_toDigits (by decide) hc
    exact hdigit d hd
  rw [digitsOf, List.map_map]
  exact (hself.trans (List.map_id _)).symm

theorem value_append_singleton (ds : List (Fin 10)) (d : Fin 10) : value (ds ++ [d]) = value ds * 10 + d.val := by
  rw [value, List.foldl_append]
  rfl

theorem value_digitsOf (n : Nat) : value (digitsOf n) = n := by
  induction n using Nat.strongRecOn with
  | ind n ih =>
      rcases Nat.lt_or_ge n 10 with hlt | hle
      · rw [digitsOf_of_lt hlt]
        simpa [value] using Nat.mod_eq_of_lt hlt
      · have hdiv : n / 10 * 10 + n % 10 = n := Nat.div_add_mod' n 10
        rw [digitsOf_of_le hle, value_append_singleton, ih _ (by omega)]
        simpa using hdiv

/-- Zero alone begins with a zero. -/
theorem digitsOf_cases (n : Nat) : digitsOf n = [0] ∨ ∃ d ds, digitsOf n = d :: ds ∧ d ≠ 0 := by
  induction n using Nat.strongRecOn with
  | ind n ih =>
      rcases Nat.lt_or_ge n 10 with hlt | hle
      · rw [digitsOf_of_lt hlt]
        by_cases hzero : Fin.ofNat 10 n = 0
        · exact .inl (by rw [hzero])
        · exact .inr ⟨_, [], rfl, hzero⟩
      · rw [digitsOf_of_le hle]
        right
        rcases ih (n / 10) (by omega) with hzero | ⟨d, ds, hds, hd⟩
        · have hvalue := value_digitsOf (n / 10)
          rw [hzero] at hvalue
          have : n / 10 = 0 := hvalue.symm
          omega
        · exact ⟨d, ds ++ [Fin.ofNat 10 (n % 10)], by rw [hds]; rfl, hd⟩

theorem digitsOf_ne_nil (n : Nat) : digitsOf n ≠ [] := by
  rcases digitsOf_cases n with h | ⟨d, ds, h, -⟩
  · simp [h]
  · simp [h]

theorem toDigits_eq_cons (n : Nat) : ∃ d cs, Nat.toDigits 10 n = digitChar d :: cs := by
  cases h : digitsOf n with
  | nil => exact absurd h (digitsOf_ne_nil n)
  | cons d ds => exact ⟨d, ds.map digitChar, by rw [toDigits_eq_map, h, List.map_cons]⟩

theorem digitChar_no_sign : ∀ d : Fin 10, digitChar d ≠ '-' ∧ digitChar d ≠ '+' := by decide

/-! ## Parts of a numeral -/

/-- What follows does not continue a numeral. -/
def Ends (rest : List Char) : Prop :=
  ∀ c ∈ rest.head?, digit? c = none ∧ c ≠ '.' ∧ c ≠ 'e' ∧ c ≠ 'E'

theorem digit?_digitChar (d : Fin 10) : digit? (digitChar d) = some d := by
  revert d
  decide

theorem takeDigits_map (ds : List (Fin 10)) (hrest : ∀ c ∈ rest.head?, digit? c = none) :
    takeDigits (ds.map digitChar ++ rest) = (ds, rest) := by
  induction ds with
  | nil =>
      cases rest with
      | nil => rfl
      | cons c rest =>
          rw [List.map_nil, List.nil_append, takeDigits, hrest c rfl]
  | cons d ds ih =>
      rw [List.map_cons, List.cons_append, takeDigits, digit?_digitChar]
      simp only [ih]

theorem readDigits_map (hds : ds ≠ []) (hrest : ∀ c ∈ rest.head?, digit? c = none) :
    readDigits (ds.map digitChar ++ rest) = .ok (ds, rest) := by
  have htake := takeDigits_map ds hrest
  cases ds with
  | nil => exact absurd rfl hds
  | cons d ds =>
      rw [List.map_cons, List.cons_append] at htake ⊢
      simp only [readDigits, htake]

theorem readWhole_toDigits (n : Nat) (hrest : ∀ c ∈ rest.head?, digit? c = none) :
    readWhole (Nat.toDigits 10 n ++ rest) = .ok (n, rest) := by
  have hread := readDigits_map (digitsOf_ne_nil n) hrest
  have hvalue := value_digitsOf n
  rw [readWhole, toDigits_eq_map, hread]
  rcases digitsOf_cases n with h | ⟨d, ds, h, hd⟩
  · rw [h] at hvalue ⊢
    rw [← hvalue]
    rfl
  · rw [h] at hvalue ⊢
    cases ds with
    | nil =>
        rw [← hvalue]
        rfl
    | cons e ds =>
        -- A zero in front of other digits would be refused.
        show (if d = 0 then _ else _) = _
        rw [if_neg hd, hvalue]

/-- The places behind the point, with the point. -/
def fractionChars (fraction : List (Fin 10)) : List Char :=
  if fraction.isEmpty then [] else '.' :: fraction.map digitChar

/-- The power of ten, with its mark. -/
def exponentChars : Option Int → List Char
  | none => []
  | some (.ofNat e) => 'e' :: Nat.toDigits 10 e
  | some (.negSucc e) => 'e' :: '-' :: Nat.toDigits 10 (e + 1)

theorem readFraction_chars (fraction : List (Fin 10)) (hrest : ∀ c ∈ rest.head?, digit? c = none ∧ c ≠ '.') :
    readFraction (fractionChars fraction ++ rest) = .ok (fraction, rest) := by
  cases fraction with
  | nil =>
      cases rest with
      | nil => rfl
      | cons c rest =>
          have hpoint := (hrest c rfl).2
          simp [fractionChars, readFraction, hpoint]
  | cons d ds =>
      exact readDigits_map (List.cons_ne_nil d ds) fun c hc => (hrest c hc).1

/-- The digits of an exponent stand behind its sign. -/
theorem readSign_toDigits (e : Nat) : readSign (Nat.toDigits 10 e ++ rest) = (false, Nat.toDigits 10 e ++ rest) := by
  obtain ⟨d, cs, hcons⟩ := toDigits_eq_cons e
  rw [hcons]
  simp [readSign, digitChar_no_sign d]

theorem readDigits_toDigits (e : Nat) (hrest : ∀ c ∈ rest.head?, digit? c = none) :
    readDigits (Nat.toDigits 10 e ++ rest) = .ok (digitsOf e, rest) := by
  rw [toDigits_eq_map]
  exact readDigits_map (digitsOf_ne_nil e) hrest

theorem readExponent_chars (exponent : Option Int) (hrest : Ends rest) :
    readExponent (exponentChars exponent ++ rest) = .ok (exponent, rest) := by
  have hdigit : ∀ c ∈ rest.head?, digit? c = none := fun c hc => (hrest c hc).1
  cases exponent with
  | none =>
      cases rest with
      | nil => rfl
      | cons c rest =>
          obtain ⟨-, -, hlow, hhigh⟩ := hrest c rfl
          simp [exponentChars, readExponent, hlow, hhigh]
  | some e =>
      cases e with
      | ofNat e =>
          simp only [exponentChars, List.cons_append, readExponent, true_or, if_true, readSign_toDigits,
            readDigits_toDigits e hdigit, bind, Except.bind, value_digitsOf]
          rfl
      | negSucc e =>
          simp only [exponentChars, List.cons_append, readExponent, true_or, if_true, readSign,
            readDigits_toDigits (e + 1) hdigit, bind, Except.bind, value_digitsOf]
          rfl

theorem chars_eq (n : Numeral) :
    n.chars = (if n.negative then ['-'] else []) ++
      (Nat.toDigits 10 n.whole ++ (fractionChars n.fraction ++ exponentChars n.exponent)) := by
  obtain ⟨negative, whole, fraction, exponent⟩ := n
  cases exponent with
  | none => simp [chars, fractionChars, exponentChars]
  | some e => cases e <;> simp [chars, fractionChars, exponentChars]

theorem Ends.exponent (hrest : Ends rest) (exponent : Option Int) :
    ∀ c ∈ (exponentChars exponent ++ rest).head?, digit? c = none ∧ c ≠ '.' := by
  have hmark : digit? 'e' = none ∧ 'e' ≠ '.' := by decide
  rcases exponent with - | (e | e)
  · exact fun c hc => ⟨(hrest c hc).1, (hrest c hc).2.1⟩
  · rintro c ⟨⟩
    exact hmark
  · rintro c ⟨⟩
    exact hmark

theorem Ends.fraction (hrest : Ends rest) (fraction : List (Fin 10)) (exponent : Option Int) :
    ∀ c ∈ (fractionChars fraction ++ (exponentChars exponent ++ rest)).head?, digit? c = none := by
  cases fraction with
  | nil => exact fun c hc => (hrest.exponent exponent c hc).1
  | cons d ds =>
      rintro c ⟨⟩
      decide

theorem read_chars (n : Numeral) (hrest : Ends rest) : read (n.chars ++ rest) = .ok (n, rest) := by
  obtain ⟨negative, whole, fraction, exponent⟩ := n
  have hwhole := readWhole_toDigits whole (hrest.fraction fraction exponent)
  have hfraction := readFraction_chars fraction (hrest.exponent exponent)
  have hexponent := readExponent_chars exponent hrest
  rw [chars_eq]
  simp only [List.append_assoc]
  cases negative with
  | true =>
      simp only [if_true, List.singleton_append, read, hwhole, hfraction, hexponent, bind, Except.bind]
  | false =>
      obtain ⟨d, cs, hcons⟩ := toDigits_eq_cons whole
      rw [hcons] at hwhole ⊢
      have hsign := (digitChar_no_sign d).1
      simp only [Bool.false_eq_true, if_false, List.nil_append, List.cons_append] at hwhole ⊢
      simp [read, hsign, hwhole, hfraction, hexponent, bind, Except.bind]

theorem natural?_ofNat (h : n < UInt64.size) : (ofNat n).natural? = some n := by
  simp [natural?, ofNat, h]

theorem inRange_ofNat (h : n < UInt64.size) : (ofNat n).inRange = true := by
  rw [inRange, natural?_ofNat h]
  rfl

end MethodSearch.Json.Numeral
