import MethodSearch.Proofs.Json.Numeral
import MethodSearch.Proofs.Json.Quoted
import MethodSearch.Proofs.Json.Written

/-!
# The compact text has no control characters

What a string holds of them is written by name or by number, and nothing else is written with one.
-/

namespace MethodSearch.Json

/-- No character is a control character. -/
def Printable (cs : List Char) : Prop :=
  ∀ c ∈ cs, 0x20 ≤ c.toNat

variable {c : Char} {cs ds : List Char}

theorem printable_nil : Printable [] := nofun

@[simp] theorem printable_cons : Printable (c :: cs) ↔ 0x20 ≤ c.toNat ∧ Printable cs :=
  List.forall_mem_cons

@[simp] theorem printable_append : Printable (cs ++ ds) ↔ Printable cs ∧ Printable ds :=
  List.forall_mem_append

theorem printable_flatMap {α : Type} {f : α → List Char} {as : List α} (h : ∀ a ∈ as, Printable (f a)) :
    Printable (as.flatMap f) := by
  intro c hc
  obtain ⟨a, ha, hc⟩ := List.mem_flatMap.mp hc
  exact h a ha c hc

theorem printable_toDigits (n : Nat) : Printable (Nat.toDigits 10 n) := by
  have hdigit : ∀ d < 10, 0x20 ≤ d.digitChar.toNat := by decide
  intro c hc
  obtain ⟨d, hd, rfl⟩ := Text.exists_digit_of_mem_toDigits (by decide) hc
  exact hdigit d hd

theorem printable_hex (width n : Nat) : Printable (Text.hex width n).toList := by
  have hdigit : ∀ d < 16, 0x20 ≤ d.digitChar.toNat := by decide
  intro c hc
  obtain ⟨d, hd, rfl⟩ := Text.exists_digit_of_mem_hex hc
  exact hdigit d hd

theorem Numeral.printable_digits (ds : List (Fin 10)) : Printable (ds.map digitChar) := by
  have hdigit : ∀ d : Fin 10, 0x20 ≤ (digitChar d).toNat := by decide
  intro c hc
  obtain ⟨d, -, rfl⟩ := List.mem_map.mp hc
  exact hdigit d

theorem Numeral.printable_chars (n : Numeral) : Printable n.chars := by
  obtain ⟨negative, whole, fraction, exponent⟩ := n
  have hsign : Printable (if negative then ['-'] else []) := by
    cases negative with
    | true => simp [printable_nil]
    | false => exact printable_nil
  have hfraction : Printable (fractionChars fraction) := by
    cases fraction with
    | nil => exact printable_nil
    | cons d ds => exact printable_cons.mpr ⟨by decide, printable_digits (d :: ds)⟩
  have hexponent : Printable (exponentChars exponent) := by
    rcases exponent with - | (e | e)
    · exact printable_nil
    · exact printable_cons.mpr ⟨by decide, printable_toDigits e⟩
    · exact printable_cons.mpr ⟨by decide, printable_cons.mpr ⟨by decide, printable_toDigits (e + 1)⟩⟩
  rw [chars_eq]
  simp only [printable_append]
  exact ⟨hsign, printable_toDigits whole, hfraction, hexponent⟩

theorem Quoted.le_of_plainEscape? {e : Char} (h : plainEscape? e = some c) : 0x20 ≤ e.toNat := by
  unfold plainEscape? at h
  split at h
  case h_9 => cases h
  all_goals decide

theorem Quoted.printable_escaped (c : Char) : Printable (escaped c) := by
  rcases escaped_cases c with ⟨e, he, h⟩ | ⟨-, h⟩ | ⟨⟨-, -, hcontrol⟩, h⟩
  · simp [h, le_of_plainEscape? he, printable_nil]
  · simp [h, printable_hex]
  · simpa [h, printable_nil] using hcontrol

theorem Quoted.printable_chars (s : String) : Printable (chars s) := by
  have hinner := printable_flatMap fun c (_ : c ∈ s.toList) => printable_escaped c
  simp [chars, hinner, printable_nil]

theorem Value.printable_chars (v : Value) : Printable v.chars := by
  have hcomma : 0x20 ≤ ','.toNat := by decide
  induction v using Value.byParts with
  | null => simp [chars, printable_nil]
  | bool b => cases b <;> simp [chars, printable_nil]
  | number n => exact n.printable_chars
  | string s => exact Quoted.printable_chars s
  | array vs ih =>
      cases vs with
      | nil => simp [chars, itemChars, printable_nil]
      | cons v vs =>
          rw [List.forall_mem_cons] at ih
          have hrest := printable_flatMap fun w hw => printable_cons.mpr ⟨hcomma, ih.2 w hw⟩
          simp [chars, itemChars_cons, ih.1, hrest, printable_nil]
  | object ms ih =>
      have hmember (m : String × Value) (hm : m ∈ ms) : Printable (Quoted.chars m.1 ++ ':' :: m.2.chars) := by
        simp [Quoted.printable_chars, ih m hm]
      cases ms with
      | nil => simp [chars, memberChars, printable_nil]
      | cons m ms =>
          rw [List.forall_mem_cons] at hmember
          have hrest := printable_flatMap fun w hw => printable_cons.mpr ⟨hcomma, hmember.2 w hw⟩
          rw [chars, memberChars_cons, List.cons_append, printable_cons, printable_append, printable_append]
          exact ⟨by decide, ⟨hmember.1, hrest⟩, printable_cons.mpr ⟨by decide, printable_nil⟩⟩

end MethodSearch.Json
