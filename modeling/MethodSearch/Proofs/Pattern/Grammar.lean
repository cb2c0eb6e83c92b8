import MethodSearch.Proofs.Pattern.Tokens
import MethodSearch.Proofs.Text.FirstFault
import MethodSearch.Proofs.Text.Numerals
import MethodSearch.Proofs.Text.Runs

/-!
# The grammar of tokens

A token is a mnemonic in any case, decimal digits, or hexadecimal digits behind `0x`. The reader takes these tokens with
the values they are written for, and reports the first token that is no such one. It departs from the grammar in one
place: it takes a plus between `0x` and the digits.
-/

namespace MethodSearch

open Bytecode

namespace Bytecode.Opcode

variable {token : List Char} {code : Opcode} {name : String}

theorem ofMnemonic?_ofList (h : ∀ c ∈ token, Text.isBlank c = false) :
    ofMnemonic? (String.ofList token) =
      (mnemonics.idxOf? (String.ofList (token.map Char.toUpper))).map UInt8.ofNat := by
  have htrim : Text.trim (String.ofList token) = String.ofList token := by
    rw [Text.trim, String.toList_ofList, Text.trimChars_of_no_blank h]
  have hupper : (String.ofList token).toUpper = String.ofList (token.map Char.toUpper) := by
    apply String.toList_inj.mp
    rw [String.toUpper, String.toList_map, String.toList_ofList, String.toList_ofList]
  rw [ofMnemonic?, htrim, hupper]

theorem ofMnemonic?_toUpper (h : ∀ c ∈ token, Text.isBlank c = false) :
    ofMnemonic? (String.ofList (token.map Char.toUpper)) = ofMnemonic? (String.ofList token) := by
  have hupper : ∀ c ∈ token.map Char.toUpper, Text.isBlank c = false := by
    intro c hc
    obtain ⟨d, hd, rfl⟩ := List.mem_map.mp hc
    rw [Text.isBlank_toUpper, h d hd]
  have htwice : Char.toUpper ∘ Char.toUpper = Char.toUpper := funext Text.toUpper_toUpper
  rw [ofMnemonic?_ofList hupper, ofMnemonic?_ofList h, List.map_map, htwice]

theorem ofMnemonic?_eq_some_iff (h : ∀ c ∈ token, Text.isBlank c = false) :
    ofMnemonic? (String.ofList token) = some code ↔
      ∃ name, code.mnemonic? = some name ∧ token.map Char.toUpper = name.toList := by
  constructor
  · intro hread
    rw [ofMnemonic?_ofList h] at hread
    obtain ⟨i, hi, rfl⟩ := Option.map_eq_some_iff.mp hread
    obtain ⟨hlt, hget, -⟩ := List.idxOf?_eq_some_iff.mp hi
    have hnumber : (UInt8.ofNat i).toNat = i :=
      Nat.mod_eq_of_lt (Nat.lt_trans hlt (by decide +kernel : mnemonics.length < 256))
    refine ⟨_, ?_, (String.toList_ofList).symm⟩
    rw [mnemonic?, hnumber, List.getElem?_eq_getElem hlt, hget]
  · rintro ⟨name, hname, hupper⟩
    rw [← ofMnemonic?_toUpper h, hupper, String.ofList_toList, ofMnemonic?_of_mnemonic? hname]

/-- A mnemonic begins with a letter. -/
theorem exists_letter_of_mnemonic? (h : code.mnemonic? = some name) (hupper : token.map Char.toUpper = name.toList) :
    ∃ c cs, token = c :: cs ∧ 65 ≤ c.toUpper.toNat := by
  have hspelled := mnemonic?_spelled h
  rw [← hupper] at hspelled
  cases token with
  | nil => cases hspelled
  | cons c cs =>
      rw [List.map_cons, List.map_cons, isSpelled, Bool.and_eq_true] at hspelled
      exact ⟨c, cs, rfl, (isCapital_bounds hspelled.1).1⟩

end Bytecode.Opcode

namespace Pattern

open Text (IsNumeral IsDigit)

variable {N : List Char → Nat → Prop} {token digits : List Char} {tokens : List (List Char)} {code : Opcode} {n : Nat}
  {x : Char} {e : Error} {answer : Except Error Pattern}

/-- The number of a token: decimal digits, or hexadecimal ones behind their mark. -/
inductive IsNumber : List Char → Nat → Prop
  | decimal {digits : List Char} {n : Nat} : IsNumeral 10 digits n → IsNumber digits n
  | hexadecimal {x : Char} {digits : List Char} {n : Nat} : x = 'x' ∨ x = 'X' → IsNumeral 16 digits n →
      IsNumber ('0' :: x :: digits) n

/-- A hexadecimal number with a plus before its digits. -/
inductive IsSigned : List Char → Nat → Prop
  | plus {x : Char} {digits : List Char} {n : Nat} : x = 'x' ∨ x = 'X' → IsNumeral 16 digits n →
      IsSigned ('0' :: x :: '+' :: digits) n

/-- What the reader takes for a number. -/
def IsReadNumber (token : List Char) (n : Nat) : Prop :=
  IsNumber token n ∨ IsSigned token n

theorem not_isDigit_mark (hx : x = 'x' ∨ x = 'X') (d : Nat) : ¬IsDigit 10 x d := by
  intro h
  rcases hx with rfl | rfl <;> cases h.decimal

theorem not_isDigit_plus (d : Nat) : ¬IsDigit 16 '+' d := by
  rw [← Text.digit?_eq_some_iff (Nat.le_refl 16)]
  nofun

theorem ofToken?_decimal (h : IsNumeral 10 token n) : Numeral.ofToken? token = some (.decimal token) := by
  have hall : token.all Char.isDigit = true := by
    rw [List.all_eq_true]
    intro c hc
    obtain ⟨d, hd⟩ := h.exists_digit hc
    exact hd.decimal
  rw [Numeral.ofToken?.eq_def]
  split
  case h_5 => rw [if_pos hall]
  all_goals
    obtain ⟨d, hd⟩ := h.exists_digit (List.mem_cons_of_mem _ List.mem_cons_self)
    exact absurd hd (not_isDigit_mark (by simp) d)

theorem ofToken?_hexadecimal (hx : x = 'x' ∨ x = 'X') (h : IsNumeral 16 digits n) :
    Numeral.ofToken? ('0' :: x :: digits) = some (.hexadecimal digits) := by
  have hplus : ∀ rest, digits ≠ '+' :: rest := by
    rintro rest rfl
    obtain ⟨d, hd⟩ := h.exists_digit List.mem_cons_self
    exact not_isDigit_plus d hd
  -- The equation for digits without a plus finds its condition in `hplus`.
  rcases hx with rfl | rfl <;> simp [Numeral.ofToken?]

theorem ofToken?_plus (hx : x = 'x' ∨ x = 'X') (digits : List Char) :
    Numeral.ofToken? ('0' :: x :: '+' :: digits) = some (.hexadecimal digits) := by
  rcases hx with rfl | rfl <;> rfl

theorem Numeral.value?_decimal :
    Numeral.value? (.decimal digits) = some n ↔ IsNumeral 10 digits n ∧ n < 2 ^ 32 := by
  rw [value?, Option.filter_eq_some_iff, Text.readNat?_eq_some_iff (by decide), decide_eq_true_iff]
  rfl

theorem Numeral.value?_hexadecimal :
    Numeral.value? (.hexadecimal digits) = some n ↔ IsNumeral 16 digits n ∧ n < 2 ^ 32 := by
  rw [value?, Option.filter_eq_some_iff, Text.readNat?_eq_some_iff (by decide), decide_eq_true_iff]
  rfl

/-- Numbers of more than 32 bits are none. -/
theorem exists_numeral_iff :
    (∃ numeral, Numeral.ofToken? token = some numeral ∧ numeral.value? = some n) ↔
      IsReadNumber token n ∧ n < 2 ^ 32 := by
  constructor
  · rintro ⟨numeral, hnumeral, hvalue⟩
    rw [Numeral.ofToken?.eq_def] at hnumeral
    split at hnumeral
    case h_5 =>
      split at hnumeral
      · cases hnumeral
        obtain ⟨hn, hlt⟩ := Numeral.value?_decimal.mp hvalue
        exact ⟨.inl (.decimal hn), hlt⟩
      · cases hnumeral
    all_goals
      cases hnumeral
      obtain ⟨hn, hlt⟩ := Numeral.value?_hexadecimal.mp hvalue
    · exact ⟨.inr (.plus (.inl rfl) hn), hlt⟩
    · exact ⟨.inr (.plus (.inr rfl) hn), hlt⟩
    · exact ⟨.inl (.hexadecimal (.inl rfl) hn), hlt⟩
    · exact ⟨.inl (.hexadecimal (.inr rfl) hn), hlt⟩
  · rintro ⟨(hn | ⟨hx, hn⟩) | ⟨hx, hn⟩, hlt⟩
    · exact ⟨_, ofToken?_decimal hn, Numeral.value?_decimal.mpr ⟨hn, hlt⟩⟩
    · exact ⟨_, ofToken?_hexadecimal hx hn, Numeral.value?_hexadecimal.mpr ⟨hn, hlt⟩⟩
    · exact ⟨_, ofToken?_plus hx _, Numeral.value?_hexadecimal.mpr ⟨hn, hlt⟩⟩

/-! ## Tokens -/

/-- What a token stands for, given what the numbers are. -/
inductive Denotes (N : List Char → Nat → Prop) : List Char → Opcode → Prop
  | mnemonic {token : List Char} {code : Opcode} {name : String} : code.mnemonic? = some name →
      token.map Char.toUpper = name.toList → Denotes N token code
  | number {token : List Char} {n : Nat} : N token n → n ≤ 255 → Denotes N token (UInt8.ofNat n)

/-- A token stands for nothing. -/
def Outside (N : List Char → Nat → Prop) (token : List Char) : Prop :=
  ¬∃ code, Denotes N token code

/-- What is said of a token that stands for nothing: a number of up to 32 bits is out of range. -/
inductive Faults (N : List Char → Nat → Prop) (token : List Char) : Error → Prop
  | outOfRange {n : Nat} : N token n → 255 < n → n < 2 ^ 32 → Faults N token (.outOfRange n)
  | invalidToken : (¬∃ n, N token n ∧ 255 < n ∧ n < 2 ^ 32) → Faults N token (.invalidToken (String.ofList token))

theorem ofToken?_mnemonic {name : String} (hname : code.mnemonic? = some name)
    (hupper : token.map Char.toUpper = name.toList) : Numeral.ofToken? token = none := by
  obtain ⟨c, cs, rfl, hletter⟩ := Opcode.exists_letter_of_mnemonic? hname hupper
  have hzero : c ≠ '0' := by
    rintro rfl
    exact absurd hletter (by decide)
  have hdigit : c.isDigit = false := by
    rw [← Bool.not_eq_true, Char.isDigit_iff_toNat]
    rintro ⟨-, hle⟩
    have hle : c.toNat ≤ 57 := hle
    rcases Text.toUpper_cases c with hc | ⟨hlow, -, -⟩
    · rw [hc] at hletter
      omega
    · omega
  simp [Numeral.ofToken?, hzero, hdigit]

theorem readToken_eq_ok_iff (h : ∀ c ∈ token, Text.isBlank c = false) :
    readToken token = .ok code ↔ Denotes IsReadNumber token code := by
  constructor
  · intro hread
    rw [readToken] at hread
    split at hread
    · next numeral hnumeral =>
        split at hread
        · cases hread
        · next n hvalue =>
            split at hread
            · next hlt =>
                cases hread
                have hnumber := (exists_numeral_iff.mp ⟨numeral, hnumeral, hvalue⟩).1
                exact .number hnumber (Nat.le_of_lt_succ hlt)
            · cases hread
    · split at hread
      · next hname =>
          cases hread
          obtain ⟨name, hname, hupper⟩ := (Opcode.ofMnemonic?_eq_some_iff h).mp hname
          exact .mnemonic hname hupper
      · cases hread
  · rintro (⟨hname, hupper⟩ | ⟨hnumber, hle⟩)
    · rw [readToken, ofToken?_mnemonic hname hupper, (Opcode.ofMnemonic?_eq_some_iff h).mpr ⟨_, hname, hupper⟩]
    · obtain ⟨numeral, hnumeral, hvalue⟩ := exists_numeral_iff.mpr ⟨hnumber, by omega⟩
      rw [readToken, hnumeral]
      simp only [hvalue, if_pos (Nat.lt_succ_of_le hle)]

theorem faults_of_readToken (h : readToken token = .error e) : Faults IsReadNumber token e := by
  rw [readToken] at h
  split at h
  · next numeral hnumeral =>
      split at h
      · next hnone =>
          cases h
          refine .invalidToken ?_
          rintro ⟨n, hnumber, -, hlt⟩
          obtain ⟨other, hother, hvalue⟩ := exists_numeral_iff.mpr ⟨hnumber, hlt⟩
          obtain rfl := Option.some.inj (hnumeral.symm.trans hother)
          cases hnone.symm.trans hvalue
      · next n hvalue =>
          split at h
          · cases h
          · next hge =>
              cases h
              obtain ⟨hnumber, hlt⟩ := exists_numeral_iff.mp ⟨numeral, hnumeral, hvalue⟩
              exact .outOfRange hnumber (by omega) hlt
  · next hnone =>
      split at h
      · cases h
      · cases h
        refine .invalidToken ?_
        rintro ⟨n, hnumber, -, hlt⟩
        obtain ⟨other, hother, -⟩ := exists_numeral_iff.mpr ⟨hnumber, hlt⟩
        cases hnone.symm.trans hother

/-! ## Patterns -/

/-- An answer is what the tokens stand for, or names the first of them that stands for nothing. -/
structure ReadsAs (N : List Char → Nat → Prop) (tokens : List (List Char)) (answer : Except Error Pattern) : Prop where
  accepted : (∃ p, answer = .ok p) ↔ ∀ token ∈ tokens, ∃ code, Denotes N token code
  values : ∀ p, answer = .ok p → List.Forall₂ (Denotes N) tokens p.opcodes
  fault : ∀ e, answer = .error e →
    ∃ token, tokens.IsFirst (Outside N) token ∧ Faults N token e

theorem isBlank_of_isSeparator (h : isSeparator x = false) : Text.isBlank x = false :=
  (Bool.or_eq_false_iff.mp h).1

theorem no_blank_of_mem_words {text : String} (h : token ∈ Text.words isSeparator text.toList) :
    ∀ c ∈ token, Text.isBlank c = false := by
  intro c hc
  exact isBlank_of_isSeparator ((Text.words_no_separator isSeparator text.toList token h).2 c hc)

theorem parse_eq_ok_iff {text : String} {p : Pattern} :
    parse text = .ok p ↔ List.Forall₂ (Denotes IsReadNumber) (Text.words isSeparator text.toList) p.opcodes := by
  have hread : List.Forall₂ (fun token code => readToken token = .ok code) (Text.words isSeparator text.toList)
      p.opcodes ↔ List.Forall₂ (Denotes IsReadNumber) (Text.words isSeparator text.toList) p.opcodes :=
    List.forall₂_congr_of_mem fun _ h _ => readToken_eq_ok_iff (no_blank_of_mem_words h)
  rw [parse, Except.map_eq_ok_iff, ← hread, ← Except.mapM_eq_ok_iff]
  constructor
  · rintro ⟨codes, hcodes, rfl⟩
    exact hcodes
  · exact fun h => ⟨p.opcodes, h, rfl⟩

theorem exists_readToken_iff {text : String} (h : token ∈ Text.words isSeparator text.toList) :
    (∃ code, readToken token = .ok code) ↔ ∃ code, Denotes IsReadNumber token code :=
  exists_congr fun _ => readToken_eq_ok_iff (no_blank_of_mem_words h)

theorem parse_readsAs (text : String) :
    ReadsAs IsReadNumber (Text.words isSeparator text.toList) (parse text) := by
  refine ⟨?_, fun p => parse_eq_ok_iff.mp, ?_⟩
  · have hread : (∃ p, parse text = .ok p) ↔
        ∃ codes, (Text.words isSeparator text.toList).mapM readToken = .ok codes := by
      simp only [parse, Except.map_eq_ok_iff]
      constructor
      · rintro ⟨p, codes, hcodes, -⟩
        exact ⟨codes, hcodes⟩
      · rintro ⟨codes, hcodes⟩
        exact ⟨⟨codes⟩, codes, hcodes, rfl⟩
    rw [hread, Except.exists_mapM_eq_ok_iff]
    exact forall₂_congr fun token h => exists_readToken_iff h
  · intro e he
    rw [parse, Except.map_eq_error_iff, Except.mapM_eq_error_iff] at he
    obtain ⟨token, hfirst, hfault⟩ := he
    have hnone := mt (exists_readToken_iff hfirst.mem).mpr hfirst.holds
    refine ⟨token, hfirst.narrow hnone fun other hother => ?_, faults_of_readToken hfault⟩
    exact mt (exists_readToken_iff hother).mp

/-! ## The plus -/

theorem not_isNumber_of_isSigned {m : Nat} (h : IsSigned token n) : ¬IsNumber token m := by
  obtain ⟨hx, -⟩ := h
  rintro (hnumber | ⟨-, hnumber⟩)
  · obtain ⟨d, hd⟩ := hnumber.exists_digit (List.mem_cons_of_mem _ List.mem_cons_self)
    exact not_isDigit_mark hx d hd
  · obtain ⟨d, hd⟩ := hnumber.exists_digit List.mem_cons_self
    exact not_isDigit_plus d hd

theorem Denotes.mono {M : List Char → Nat → Prop} (hMN : ∀ n, M token n → N token n) (h : Denotes M token code) :
    Denotes N token code := by
  cases h with
  | mnemonic hname hupper => exact .mnemonic hname hupper
  | number hnumber hle => exact .number (hMN _ hnumber) hle

/-- What the reader takes beyond the grammar are numbers with a plus. -/
theorem Denotes.isSigned (h : Denotes IsReadNumber token code) :
    Denotes IsNumber token code ∨ ∃ n, IsSigned token n ∧ n ≤ 255 := by
  cases h with
  | mnemonic hname hupper => exact .inl (.mnemonic hname hupper)
  | number hnumber hle =>
      rcases hnumber with hnumber | hsigned
      · exact .inl (.number hnumber hle)
      · exact .inr ⟨_, hsigned, hle⟩

theorem IsSigned.outside (h : IsSigned token n) : Outside IsNumber token := by
  rintro ⟨code, ⟨hname, hupper⟩ | ⟨hnumber, -⟩⟩
  · obtain ⟨c, cs, rfl, hletter⟩ := Opcode.exists_letter_of_mnemonic? hname hupper
    cases h
    exact absurd hletter (by decide)
  · exact not_isNumber_of_isSigned h hnumber

theorem Outside.grammar (h : Outside IsReadNumber token) : Outside IsNumber token := by
  rintro ⟨code, hcode⟩
  exact h ⟨code, hcode.mono fun _ => .inl⟩

theorem Outside.read (h : Outside IsNumber token) (hplus : ∀ n, IsSigned token n → ¬n < 2 ^ 32) :
    Outside IsReadNumber token := by
  rintro ⟨code, hcode⟩
  rcases hcode.isSigned with hcode | ⟨n, hsigned, hle⟩
  · exact h ⟨code, hcode⟩
  · exact hplus n hsigned (by omega)

theorem Faults.grammar (h : Faults IsReadNumber token e) (hplus : ∀ n, IsSigned token n → ¬n < 2 ^ 32) :
    Faults IsNumber token e := by
  cases h with
  | outOfRange hnumber hgt hlt =>
      rcases hnumber with hnumber | hsigned
      · exact .outOfRange hnumber hgt hlt
      · exact absurd hlt (hplus _ hsigned)
  | invalidToken hnone =>
      refine .invalidToken ?_
      rintro ⟨n, hnumber, hrange⟩
      exact hnone ⟨n, .inl hnumber, hrange⟩

theorem denotes_iff_of_grammar (h : ∃ code, Denotes IsNumber token code) (code : Opcode) :
    Denotes IsReadNumber token code ↔ Denotes IsNumber token code := by
  constructor
  · intro hcode
    rcases hcode.isSigned with hcode | ⟨n, hsigned, -⟩
    · exact hcode
    · exact absurd h hsigned.outside
  · exact Denotes.mono fun _ => .inl

/-- Where the first token outside the grammar is no number with a plus, the reader does what the grammar says. -/
theorem ReadsAs.grammar (h : ReadsAs IsReadNumber tokens answer)
    (hplus : ∀ token, tokens.IsFirst (Outside IsNumber) token → ∀ n, IsSigned token n → ¬n < 2 ^ 32) :
    ReadsAs IsNumber tokens answer := by
  have hread : (∃ token ∈ tokens, Outside IsReadNumber token) ↔ ∃ token ∈ tokens, Outside IsNumber token := by
    constructor
    · rintro ⟨token, htoken, houtside⟩
      exact ⟨token, htoken, houtside.grammar⟩
    · intro hsome
      obtain ⟨token, hfirst⟩ := List.exists_isFirst_iff.mpr hsome
      exact ⟨token, hfirst.mem, hfirst.holds.read (hplus token hfirst)⟩
  have haccepted : (∃ p, answer = .ok p) ↔ ∀ token ∈ tokens, ∃ code, Denotes IsNumber token code := by
    rw [h.accepted, ← not_iff_not]
    simpa only [Outside, not_forall, exists_prop] using hread
  refine ⟨haccepted, ?_, ?_⟩
  · intro p hp
    have hall := haccepted.mp ⟨p, hp⟩
    exact (List.forall₂_congr_of_mem fun token htoken => denotes_iff_of_grammar (hall token htoken)).mp (h.values p hp)
  · intro e he
    obtain ⟨other, hother, hfault⟩ := h.fault e he
    obtain ⟨token, hfirst⟩ := List.exists_isFirst_iff.mpr (hread.mp ⟨other, hother.mem, hother.holds⟩)
    have hsame := hfirst.narrow (hfirst.holds.read (hplus token hfirst)) fun _ _ => Outside.grammar
    obtain rfl := hsame.unique hother
    exact ⟨token, hfirst, hfault.grammar (hplus token hfirst)⟩

/-- A number with a plus that is the first token outside the grammar goes unreported. -/
theorem ReadsAs.not_grammar (h : ReadsAs IsReadNumber tokens answer)
    (hfirst : tokens.IsFirst (Outside IsNumber) token)
    (hsigned : IsSigned token n) (hlt : n < 2 ^ 32) : ¬ReadsAs IsNumber tokens answer := by
  intro hgrammar
  have hrejected : ¬∃ p, answer = .ok p := fun hok => hfirst.holds (hgrammar.accepted.mp hok token hfirst.mem)
  obtain ⟨e, he⟩ := Except.not_exists_eq_ok_iff.mp hrejected
  obtain ⟨other, hother, hfault⟩ := hgrammar.fault e he
  obtain rfl := hfirst.unique hother
  cases hfault with
  | outOfRange hnumber _ _ => exact not_isNumber_of_isSigned hsigned hnumber
  | invalidToken _ =>
      obtain ⟨actual, hactual, hreport⟩ := h.fault _ he
      generalize hs : String.ofList token = s at hreport
      cases hreport with
      | invalidToken hnone =>
          obtain rfl := String.ofList_injective hs
          refine hnone ⟨n, .inr hsigned, Nat.lt_of_not_le fun hle => ?_, hlt⟩
          exact hactual.holds ⟨_, .number (.inr hsigned) hle⟩

/-- A text has one list of tokens, the longest runs between blanks and commas. Its pattern is what the tokens stand for,
one after another, if every one of them is a mnemonic in any case or a number up to 255, where a number may have a plus
before its hexadecimal digits. Otherwise the first other token is reported, as out of range if it is a number of up to
32 bits. Without the plus in the grammar, the same holds of just those texts whose first token outside the grammar is no
number with a plus. -/
theorem parse_reads (text : String) :
    ∃ tokens, (∀ ws, Text.Runs isSeparator text.toList ws ↔ ws = tokens) ∧
      ReadsAs IsReadNumber tokens (parse text) ∧
      (ReadsAs IsNumber tokens (parse text) ↔
        ¬∃ token n, tokens.IsFirst (Outside IsNumber) token ∧ IsSigned token n ∧ n < 2 ^ 32) := by
  have hread := parse_readsAs text
  refine ⟨Text.words isSeparator text.toList, fun ws => Text.runs_iff, hread, ?_⟩
  constructor
  · rintro hgrammar ⟨token, n, hfirst, hsigned, hlt⟩
    exact hread.not_grammar hfirst hsigned hlt hgrammar
  · intro hplus
    refine hread.grammar fun token hfirst n hsigned hlt => ?_
    exact hplus ⟨token, n, hfirst, hsigned, hlt⟩

/-- The token `0x+1` is read as the opcode 1, although it is outside the grammar. -/
theorem parse_plus :
    ¬∀ text tokens, Text.Runs isSeparator text.toList tokens → ReadsAs IsNumber tokens (parse text) := by
  intro hgrammar
  have hruns : Text.Runs isSeparator "0x+1".toList ["0x+1".toList] := Text.runs_iff.mpr (by decide)
  have hread := hgrammar "0x+1" _ hruns
  have hok : parse "0x+1" = .ok ⟨[1]⟩ := by decide +kernel
  have hdenotes := hread.accepted.mp ⟨_, hok⟩ "0x+1".toList List.mem_cons_self
  have hone : IsNumeral 16 ['1'] 1 := (Text.readNat?_eq_some_iff (by decide)).mp (by decide)
  have hsigned : IsSigned "0x+1".toList 1 := .plus (.inl rfl) hone
  exact hsigned.outside hdenotes

end Pattern

end MethodSearch
