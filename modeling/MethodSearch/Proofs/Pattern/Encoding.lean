import MethodSearch.Proofs.Pattern.Grammar

/-!
# Texts of patterns

The text of a pattern is read as the pattern. Two texts with a gap between them are read one behind the other, and the
first of them that is at fault settles the fault. The case of letters changes neither what is read nor whether it is.
-/

namespace MethodSearch.Pattern

open Bytecode
open Text (IsNumeral)

variable {token other : List Char} {code : Opcode} {n : Nat} {x y : Char} {a b gap text : String} {p : Pattern}

theorem parse_append (hne : gap ≠ "") (hgap : ∀ c ∈ gap.toList, isSeparator c = true) :
    parse (a ++ gap ++ b) = do
      let p ← parse a
      let q ← parse b
      return ⟨p.opcodes ++ q.opcodes⟩ := by
  have hne : gap.toList ≠ [] := mt String.toList_eq_nil_iff.mp hne
  rw [parse, String.toList_append, String.toList_append, Text.words_append hne hgap, List.mapM_append, parse, parse]
  cases (Text.words isSeparator a.toList).mapM readToken with
  | error e => rfl
  | ok p => cases (Text.words isSeparator b.toList).mapM readToken <;> rfl

theorem mark_of_toUpper (hx : x = 'x' ∨ x = 'X') (h : y.toUpper = x.toUpper) : y = 'x' ∨ y = 'X' := by
  have hcapital : y.toUpper = 'X' := by
    rw [h]
    rcases hx with rfl | rfl <;> rfl
  rcases Text.toUpper_cases y with hy | ⟨-, -, hy⟩
  · exact .inr (hy.symm.trans hcapital)
  · rw [hcapital] at hy
    exact .inl (Char.toNat_inj.mp hy.symm)

theorem IsReadNumber.recase (h : IsReadNumber token n) (hcase : other.map Char.toUpper = token.map Char.toUpper) :
    IsReadNumber other n := by
  have hnumeral {base : Nat} {s t : List Char} (hst : t.map Char.toUpper = s.map Char.toUpper)
      (hs : IsNumeral base s n) : IsNumeral base t n := by
    rw [← Text.isNumeral_map_toUpper, hst, Text.isNumeral_map_toUpper]
    exact hs
  rcases h with (hn | ⟨hx, hn⟩) | ⟨hx, hn⟩
  · exact .inl (.decimal (hnumeral hcase hn))
  · obtain ⟨c, cs, rfl, hc, hcs⟩ := List.map_eq_cons_iff.mp hcase
    obtain ⟨y, digits, rfl, hy, hdigits⟩ := List.map_eq_cons_iff.mp hcs
    obtain rfl := Text.eq_of_toUpper (by decide) hc
    exact .inl (.hexadecimal (mark_of_toUpper hx hy) (hnumeral hdigits hn))
  · obtain ⟨c, cs, rfl, hc, hcs⟩ := List.map_eq_cons_iff.mp hcase
    obtain ⟨y, ds, rfl, hy, hds⟩ := List.map_eq_cons_iff.mp hcs
    obtain ⟨d, digits, rfl, hd, hdigits⟩ := List.map_eq_cons_iff.mp hds
    obtain rfl := Text.eq_of_toUpper (by decide) hc
    obtain rfl := Text.eq_of_toUpper (by decide) hd
    exact .inr (.plus (mark_of_toUpper hx hy) (hnumeral hdigits hn))

theorem Denotes.recase (h : Denotes IsReadNumber token code)
    (hcase : other.map Char.toUpper = token.map Char.toUpper) : Denotes IsReadNumber other code := by
  cases h with
  | mnemonic hname hupper => exact .mnemonic hname (hcase.trans hupper)
  | number hnumber hle => exact .number (hnumber.recase hcase) hle

theorem denotes_map_toUpper :
    Denotes IsReadNumber (token.map Char.toUpper) code ↔ Denotes IsReadNumber token code := by
  have htwice : (token.map Char.toUpper).map Char.toUpper = token.map Char.toUpper := by
    rw [List.map_map]
    exact List.map_congr_left fun c _ => Text.toUpper_toUpper c
  exact ⟨fun h => h.recase htwice.symm, fun h => h.recase htwice⟩

theorem isSeparator_toUpper (c : Char) : isSeparator c.toUpper = isSeparator c := by
  have hcomma : c.toUpper = ',' ↔ c = ',' := by
    constructor
    · exact Text.eq_of_toUpper (by decide)
    · rintro rfl
      rfl
  rw [isSeparator, isSeparator, Text.isBlank_toUpper, Bool.beq_eq_decide_eq, Bool.beq_eq_decide_eq,
    decide_eq_decide.mpr hcomma]

theorem parse_toUpper : parse text.toUpper = .ok p ↔ parse text = .ok p := by
  rw [parse_eq_ok_iff, parse_eq_ok_iff, String.toUpper, String.toList_map, Text.words_map isSeparator_toUpper,
    List.forall₂_map_left_iff]
  simp only [denotes_map_toUpper]

/-- Every pattern is read from its text. A text behind another and a gap adds its opcodes to those before, or its fault
if there is none before. Texts that differ in the case of letters hold the same pattern, if any. -/
theorem parse_faithful :
    (∀ p : Pattern, parse p.render = .ok p) ∧
      (∀ a b gap : String, gap ≠ "" → (∀ c ∈ gap.toList, isSeparator c = true) →
        (∀ p q, parse a = .ok p → parse b = .ok q → parse (a ++ gap ++ b) = .ok ⟨p.opcodes ++ q.opcodes⟩) ∧
        (∀ e, parse a = .error e → parse (a ++ gap ++ b) = .error e) ∧
        ∀ p e, parse a = .ok p → parse b = .error e → parse (a ++ gap ++ b) = .error e) ∧
      ∀ a b : String, a.toUpper = b.toUpper → ∀ p, parse a = .ok p ↔ parse b = .ok p := by
  refine ⟨parse_render, ?_, ?_⟩
  · intro a b gap hne hgap
    rw [parse_append hne hgap]
    refine ⟨?_, ?_, ?_⟩
    · intro p q ha hb
      rw [ha, hb]
      rfl
    · intro e ha
      rw [ha]
      rfl
    · intro p e ha hb
      rw [ha, hb]
      rfl
  · intro a b hcase p
    rw [← parse_toUpper, hcase, parse_toUpper]

/-- Opcodes on both sides of a comma and a blank, tokens at fault there, and a mnemonic in two cases. -/
theorem parse_faithful_nop :
    parse (render ⟨[0, 203]⟩) = .ok ⟨[0, 203]⟩ ∧
      parse ("nop" ++ ", " ++ "0xb1 7") = .ok ⟨[0, 177, 7]⟩ ∧
      parse ("0x" ++ ", " ++ "256") = .error (.invalidToken "0x") ∧
      parse ("nop" ++ ", " ++ "256") = .error (.outOfRange 256) ∧
      (parse "Nop 0XB1" = .ok ⟨[0, 177]⟩ ↔ parse "nOP 0xb1" = .ok ⟨[0, 177]⟩) := by
  obtain ⟨hrender, hgap, hcase⟩ := parse_faithful
  have hseparator : ∀ c ∈ (", " : String).toList, isSeparator c = true := by
    show ∀ c ∈ [',', ' '], isSeparator c = true
    rw [List.forall_mem_cons, List.forall_mem_singleton]
    exact ⟨rfl, rfl⟩
  have hnop : parse "nop" = .ok ⟨[0]⟩ := by decide +kernel
  have hcodes : parse "0xb1 7" = .ok ⟨[177, 7]⟩ := by decide +kernel
  have hrange : parse "256" = .error (.outOfRange 256) := by decide +kernel
  have hbare : parse "0x" = .error (.invalidToken "0x") := by decide +kernel
  have hupper : "Nop 0XB1".toUpper = "nOP 0xb1".toUpper := by
    apply String.toList_inj.mp
    rw [String.toUpper, String.toUpper, String.toList_map, String.toList_map]
    decide +kernel
  refine ⟨hrender _, ?_, ?_, ?_, hcase _ _ hupper _⟩
  · exact (hgap "nop" "0xb1 7" ", " (by decide) hseparator).1 _ _ hnop hcodes
  · exact (hgap "0x" "256" ", " (by decide) hseparator).2.1 _ hbare
  · exact (hgap "nop" "256" ", " (by decide) hseparator).2.2 _ _ hnop hrange

end MethodSearch.Pattern
