import MethodSearch.Proofs.Text.Digits
import MethodSearch.Resolution.Location
import Std.Data.String.ToNat

/-!
# What messages tell

The text of a mismatch tells all that the mismatch says, and the text of a window tells the window. So the records of a
trial that was made tell its outcomes apart.
-/

namespace MethodSearch

open Bytecode Text

namespace Text

/-- A text is cut in one way where a character stands for the first time. -/
theorem append_separator_inj {front front' sep rest rest' : String} {c : Char}
    (h : front ++ (sep ++ rest) = front' ++ (sep ++ rest')) (hfront : c ∉ front.toList) (hfront' : c ∉ front'.toList)
    (hsep : sep.toList.head? = some c) : front = front' ∧ rest = rest' := by
  obtain ⟨tail, htail⟩ := List.head?_eq_some_iff.mp hsep
  have hchars : front.toList ++ c :: (tail ++ rest.toList) = front'.toList ++ c :: (tail ++ rest'.toList) := by
    simpa [htail] using congrArg String.toList h
  have hcut := congrArg (List.splitOn c) hchars
  rw [List.splitOn_append_cons_self_of_not_mem hfront, List.splitOn_append_cons_self_of_not_mem hfront',
    List.cons.injEq, String.toList_inj] at hcut
  obtain ⟨rfl, -⟩ := hcut
  rw [String.append_right_inj, String.append_right_inj] at h
  exact ⟨rfl, h⟩

theorem getElem?_append_of_some {front : String} {i : Nat} {c : Char} (h : front.toList[i]? = some c)
    (rest : String) : (front ++ rest).toList[i]? = some c := by
  rw [String.toList_append, List.getElem?_append_left (List.getElem?_eq_some_iff.mp h).1, h]

theorem not_mem_repr {c : Char} (hc : c.isDigit = false) (n : Nat) : c ∉ (Nat.repr n).toList := by
  rw [Nat.repr, String.toList_ofList]
  intro hmem
  cases hc.symm.trans (Nat.isDigit_of_mem_toDigits (by decide) (by decide) hmem)

theorem comma_not_mem_hex (width n : Nat) : ',' ∉ (hex width n).toList := by
  intro hmem
  obtain ⟨d, hd, hc⟩ := exists_digit_of_mem_hex hmem
  have hdigits : ∀ d < 16, ',' ≠ d.digitChar := by decide
  exact hdigits d hd hc

theorem hex_injective {width m n : Nat} (h : hex width m = hex width n) : m = n := by
  have hm := readNat?_hex width m
  rw [h, readNat?_hex] at hm
  exact (Option.some.inj hm).symm

end Text

/-! ## Mismatches -/

/-- Reads the text of a category. -/
def Category.read? (s : String) : Option Category :=
  if s = "void" then some .void
  else if s = "object" then some .object
  else if s = "array" then some .array
  else (Primitive.ofKeyword? s).map .primitive

theorem Category.read?_render (c : Category) : Category.read? c.render = some c := by
  cases c with
  | primitive base => cases base <;> decide
  | _ => rfl

theorem Category.render_injective {c c' : Category} (h : c.render = c'.render) : c = c' := by
  have hc := c.read?_render
  rw [h, read?_render] at hc
  exact (Option.some.inj hc).symm

theorem Category.comma_not_mem_render (c : Category) : ',' ∉ c.render.toList := by
  cases c with
  | primitive base => cases base <;> decide
  | _ => decide

namespace Mismatch

/-- The letter that the message begins with. -/
def initial : Mismatch → Char
  | .returnType .. => 'r'
  | .access .. => 'a'
  | .parameterCount .. => 't'
  | .parameter .. => 'p'
  | .opcodePattern .. => 'o'

theorem getElem?_message (r : Mismatch) : r.message.toList[0]? = some r.initial := by
  unfold message initial
  cases r <;> simp only [String.append_assoc] <;> refine getElem?_append_of_some ?_ _ <;> decide

theorem message_injective {r r' : Mismatch} (h : r.message = r'.message) : r = r' := by
  have hinitial : r.initial = r'.initial := by
    rw [← Option.some.injEq, ← getElem?_message, ← getElem?_message, h]
  cases r with
  | returnType expected actual =>
      cases r' with
      | returnType expected' actual' =>
          unfold message at h
          simp only [String.append_assoc, String.append_right_inj] at h
          obtain ⟨hactual, hexpected⟩ :=
            append_separator_inj h actual.comma_not_mem_render actual'.comma_not_mem_render (by decide)
          rw [Category.render_injective hactual, Category.render_injective hexpected]
      | _ => simp [initial] at hinitial
  | access expected actual =>
      cases r' with
      | access expected' actual' =>
          unfold message at h
          simp only [String.append_assoc, String.append_right_inj] at h
          obtain ⟨hactual, hexpected⟩ :=
            append_separator_inj h (comma_not_mem_hex 4 _) (comma_not_mem_hex 4 _) (by decide)
          rw [UInt16.toNat_inj.mp (hex_injective hactual), UInt16.toNat_inj.mp (hex_injective hexpected)]
      | _ => simp [initial] at hinitial
  | parameterCount expected actual =>
      cases r' with
      | parameterCount expected' actual' =>
          unfold message at h
          simp only [String.append_assoc, String.append_right_inj] at h
          obtain ⟨hactual, hexpected⟩ :=
            append_separator_inj h (not_mem_repr (c := ' ') rfl _) (not_mem_repr rfl _) (by decide)
          rw [Nat.repr_injective hactual, Nat.repr_injective hexpected]
      | _ => simp [initial] at hinitial
  | parameter index expected actual =>
      cases r' with
      | parameter index' expected' actual' =>
          unfold message at h
          simp only [String.append_assoc, String.append_right_inj] at h
          obtain ⟨hindex, h⟩ := append_separator_inj h (not_mem_repr (c := ' ') rfl _) (not_mem_repr rfl _) (by decide)
          obtain ⟨hactual, hexpected⟩ :=
            append_separator_inj h actual.comma_not_mem_render actual'.comma_not_mem_render (by decide)
          rw [Nat.repr_injective hindex, Category.render_injective hactual, Category.render_injective hexpected]
      | _ => simp [initial] at hinitial
  | opcodePattern length =>
      cases r' with
      | opcodePattern length' =>
          unfold message at h
          simp only [String.append_right_inj, String.append_left_inj] at h
          rw [Nat.repr_injective h]
      | _ => simp [initial] at hinitial

end Mismatch

/-! ## Outcomes -/

namespace Event

theorem windowText_injective {w w' : Option Window} (h : windowText w = windowText w') : w = w' := by
  -- `None` and `Some` begin with different letters.
  have hinitial (w : Window) : windowText none ≠ windowText (some w) := by
    intro h
    have hsome : (windowText (some w)).toList[0]? = some 'S' := by
      unfold windowText
      simp only [String.append_assoc]
      exact getElem?_append_of_some (by decide) _
    rw [← h] at hsome
    exact absurd hsome (by decide)
  cases w with
  | none =>
      cases w' with
      | none => rfl
      | some w' => exact absurd h (hinitial w')
  | some w =>
      cases w' with
      | none => exact absurd h.symm (hinitial w)
      | some w' =>
          obtain ⟨start, stop⟩ := w
          obtain ⟨start', stop'⟩ := w'
          unfold windowText at h
          simp only [String.append_assoc, String.append_right_inj] at h
          obtain ⟨hstart, hstop⟩ := append_separator_inj h (not_mem_repr (c := ',') rfl _) (not_mem_repr rfl _) (by decide)
          rw [String.append_left_inj] at hstop
          rw [Nat.repr_injective hstart, Nat.repr_injective hstop]

/-- The messages of a trial that was made tell its outcomes apart, as far as the window of a scan goes. -/
theorem message_ofOutcome_inj {t : Trial} {outcome outcome' : Except Mismatch Scan} :
    (ofOutcome t outcome).message = (ofOutcome t outcome').message ↔
      outcome.map Scan.window? = outcome'.map Scan.window? := by
  have hwords (scan : Scan) (reason : Mismatch) : (matched t scan).message ≠ (rejected t reason).message := by
    intro h
    unfold message at h
    simp only [String.append_assoc, String.append_right_inj] at h
    have hmatched := getElem?_append_of_some (i := 1) (show " matches ".toList[1]? = some 'm' by decide)
      (t.signature.name ++ (" (window " ++ (windowText scan.window? ++ ")")))
    rw [h, getElem?_append_of_some (c := 'r') (by decide)] at hmatched
    cases hmatched
  cases outcome with
  | ok scan =>
      cases outcome' with
      | ok scan' =>
          unfold message
          simp only [ofOutcome, String.append_left_inj, String.append_right_inj, Except.map, Except.ok.injEq]
          exact ⟨windowText_injective, fun h => by rw [h]⟩
      | error reason' => exact iff_of_false (hwords scan reason') nofun
  | error reason =>
      cases outcome' with
      | ok scan' => exact iff_of_false (hwords scan' reason).symm nofun
      | error reason' =>
          unfold message
          simp only [ofOutcome, String.append_right_inj, Except.map, Except.error.injEq]
          exact ⟨Mismatch.message_injective, fun h => by rw [h]⟩

theorem record_ofOutcome_inj {t : Trial} {outcome outcome' : Except Mismatch Scan} :
    (ofOutcome t outcome).record = (ofOutcome t outcome').record ↔
      outcome.map Scan.window? = outcome'.map Scan.window? := by
  have hlevel (outcome : Except Mismatch Scan) : (ofOutcome t outcome).level = .trace := by
    cases outcome <;> rfl
  rw [record, record, hlevel, hlevel, Log.Record.mk.injEq, and_iff_right rfl, and_iff_right rfl]
  exact message_ofOutcome_inj

end Event

end MethodSearch
