import MethodSearch.Json.Quoted
import MethodSearch.Proofs.Text.Digits

/-!
# Strings read back

A string that is written between quotation marks is read up to its closing mark, character for character.
-/

namespace MethodSearch.Json.Quoted

variable {done rest : List Char} {c : Char}

/-- The characters read so far, last one first, where no half of a pair waits. -/
def Progress.ofChars (done : List Char) : Progress :=
  ⟨.ok done, none⟩

/-- A character is written as an escape of one letter, by its number, or as itself. -/
theorem escaped_cases (c : Char) :
    (∃ e, plainEscape? e = some c ∧ escaped c = ['\\', e]) ∨
      (c.toNat < 0x20 ∧ escaped c = '\\' :: 'u' :: (Text.hex 4 c.toNat).toList) ∨
      (c ≠ '"' ∧ c ≠ '\\' ∧ ¬c.toNat < 0x20) ∧ escaped c = [c] := by
  unfold escaped
  by_cases hmark : c = '"'
  · exact .inl ⟨'"', by simp [hmark, plainEscape?]⟩
  by_cases hslash : c = '\\'
  · exact .inl ⟨'\\', by simp [hslash, plainEscape?]⟩
  by_cases hback : c = '\x08'
  · exact .inl ⟨'b', by simp [hback, plainEscape?]⟩
  by_cases hfeed : c = '\x0c'
  · exact .inl ⟨'f', by simp [hfeed, plainEscape?]⟩
  by_cases hline : c = '\n'
  · exact .inl ⟨'n', by simp [hline, plainEscape?]⟩
  by_cases hreturn : c = '\r'
  · exact .inl ⟨'r', by simp [hreturn, plainEscape?]⟩
  by_cases htab : c = '\t'
  · exact .inl ⟨'t', by simp [htab, plainEscape?]⟩
  simp only [hmark, hslash, hback, hfeed, hline, hreturn, htab, if_false]
  by_cases hcontrol : c.toNat < 0x20
  · exact .inr (.inl ⟨hcontrol, if_pos hcontrol⟩)
  · exact .inr (.inr ⟨⟨hmark, hslash, hcontrol⟩, if_neg hcontrol⟩)

theorem read_mark (done rest : List Char) :
    read (.ofChars done) ('"' :: rest) = .closed (.ok (String.ofList done.reverse)) rest := by
  rw [read.eq_def]
  rfl

theorem read_plain (h : c ≠ '"' ∧ c ≠ '\\' ∧ ¬c.toNat < 0x20) :
    read (.ofChars done) (c :: rest) = read (.ofChars (c :: done)) rest := by
  obtain ⟨hmark, hslash, hcontrol⟩ := h
  rw [read.eq_def]
  simp only [if_neg hmark, if_neg hslash, if_neg hcontrol]
  rfl

theorem read_escape {e : Char} (h : plainEscape? e = some c) :
    read (.ofChars done) ('\\' :: e :: rest) = read (.ofChars (c :: done)) rest := by
  have hunit : e ≠ 'u' := by
    rintro rfl
    cases h
  rw [read.eq_def]
  simp [h, Progress.ofChars, Progress.push, Except.map]

theorem hex_of_control : ∀ n < 0x20, (Text.hex 4 n).toList = ['0', '0', (n / 16).digitChar, (n % 16).digitChar] := by
  decide

theorem fourBytesLeft_cons (a b c d : Char) (rest : List Char) : fourBytesLeft (a :: b :: c :: d :: rest) = true := by
  have ha := a.utf8Size_pos
  have hb := b.utf8Size_pos
  have hc := c.utf8Size_pos
  have hd := d.utf8Size_pos
  simp [fourBytesLeft]
  omega

theorem pushUnit_control (h : c.toNat < 0x20) : (Progress.ofChars done).pushUnit c.toNat = .ofChars (c :: done) := by
  have htrail : isTrail c.toNat = false := by
    simp [isTrail]
    omega
  have hlead : isLead c.toNat = false := by
    simp [isLead]
    omega
  simp [Progress.pushUnit, Progress.ofChars, htrail, hlead, Except.map]

theorem read_control (h : c.toNat < 0x20) :
    read (.ofChars done) ('\\' :: 'u' :: ((Text.hex 4 c.toNat).toList ++ rest)) =
      read (.ofChars (c :: done)) rest := by
  have hread := Text.readNat?_hex 4 c.toNat
  rw [hex_of_control c.toNat h] at hread ⊢
  rw [read.eq_def]
  simp [fourBytesLeft_cons, hread, pushUnit_control h]

theorem read_escaped (c : Char) (done rest : List Char) :
    read (.ofChars done) (escaped c ++ rest) = read (.ofChars (c :: done)) rest := by
  rcases escaped_cases c with ⟨e, he, h⟩ | ⟨hcontrol, h⟩ | ⟨hplain, h⟩
  · rw [h]
    exact read_escape he
  · rw [h]
    exact read_control hcontrol
  · rw [h]
    exact read_plain hplain

theorem read_flatMap (cs done rest : List Char) :
    read (.ofChars done) (cs.flatMap escaped ++ '"' :: rest) =
      .closed (.ok (String.ofList (done.reverse ++ cs))) rest := by
  induction cs generalizing done with
  | nil => rw [List.flatMap_nil, List.nil_append, read_mark, List.append_nil]
  | cons c cs ih =>
      rw [List.flatMap_cons, List.append_assoc, read_escaped, ih, List.reverse_cons, List.append_assoc,
        List.singleton_append]

theorem read_chars (s : String) (rest : List Char) :
    read .start (s.toList.flatMap escaped ++ '"' :: rest) = .closed (.ok s) rest := by
  have h := read_flatMap s.toList [] rest
  rwa [List.reverse_nil, List.nil_append, String.ofList_toList] at h

end MethodSearch.Json.Quoted
