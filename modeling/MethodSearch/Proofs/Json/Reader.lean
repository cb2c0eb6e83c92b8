import MethodSearch.Proofs.Json.Numeral
import MethodSearch.Proofs.Json.Quoted
import MethodSearch.Proofs.Json.Written

/-!
# Texts read back

Every text of a value is read as that value and nothing is left over. The reader keeps the open containers on a stack,
so the statements are about any stack and any text behind the value.
-/

namespace MethodSearch.Json

mutual

/-- What a text of the value says. -/
def Document.ofValue : Value → Document
  | .null => .null
  | .bool b => .bool b
  | .number n => .number n
  | .string s => .string (.ok s)
  | .array vs => .array (Document.ofItems vs) none
  | .object ms => .object (Document.ofMembers ms) none

def Document.ofItems : List Value → List Document
  | [] => []
  | v :: vs => Document.ofValue v :: Document.ofItems vs

def Document.ofMembers : List (String × Value) → List (Key × Document)
  | [] => []
  | (k, v) :: ms => (.text (.ok k), Document.ofValue v) :: Document.ofMembers ms

end

namespace Reader

variable {b c : Char} {s rest after : List Char} {d : Document} {stack : List Frame} {v : Value}

theorem skipBlanks_blank (hb : isBlank b = true) (s : List Char) : skipBlanks (b :: s) = skipBlanks s :=
  List.dropWhile_cons_of_pos hb

theorem skipBlanks_blanks {bs : List Char} (hbs : ∀ b ∈ bs, isBlank b = true) (s : List Char) :
    skipBlanks (bs ++ s) = skipBlanks s := by
  induction bs with
  | nil => rfl
  | cons b bs ih =>
      rw [List.forall_mem_cons] at hbs
      rw [List.cons_append, skipBlanks_blank hbs.1, ih hbs.2]

theorem skipBlanks_cons (hc : isBlank c = false) (s : List Char) : skipBlanks (c :: s) = c :: s :=
  List.dropWhile_cons_of_neg (by simp [hc])

theorem enter_blank (hb : isBlank b = true) (stack : List Frame) (s : List Char) :
    enter stack (b :: s) = enter stack s := by
  rw [enter, enter, skipBlanks_blank hb]

theorem member_blank (hb : isBlank b = true) (found : List (Key × Document)) (stack : List Frame) (s : List Char) :
    member found stack (b :: s) = member found stack s := by
  rw [member, member, skipBlanks_blank hb]

/-- Inside a container. Behind the outermost value blanks are left over. -/
theorem settle_blank (hb : isBlank b = true) (d : Document) (frame : Frame) (stack : List Frame) (s : List Char) :
    settle d (frame :: stack) (b :: s) = settle d (frame :: stack) s := by
  cases frame with
  | items found => rw [settle.eq_def, settle.eq_def d _ s]; simp only [skipBlanks_blank hb]
  | members found key => rw [settle.eq_def, settle.eq_def d _ s]; simp only [skipBlanks_blank hb]

/-! ## Containers -/

theorem enter_array (hs : skipBlanks s = c :: after) (hc : c ≠ ']') (stack : List Frame) :
    enter stack ('[' :: s) = .next (.items [] :: stack) s := by
  rw [enter, skipBlanks_cons (by decide)]
  simp [hs, hc]

theorem enter_emptyArray (hs : skipBlanks s = ']' :: after) (stack : List Frame) :
    enter stack ('[' :: s) = settle (.array [] none) stack after := by
  rw [enter, skipBlanks_cons (by decide)]
  simp [hs]

theorem enter_object (hs : skipBlanks s = c :: after) (hc : c ≠ '}') (stack : List Frame) :
    enter stack ('{' :: s) = member [] stack s := by
  rw [enter, skipBlanks_cons (by decide)]
  simp [hs, hc]

theorem enter_emptyObject (hs : skipBlanks s = '}' :: after) (stack : List Frame) :
    enter stack ('{' :: s) = settle (.object [] none) stack after := by
  rw [enter, skipBlanks_cons (by decide)]
  simp [hs]

theorem settle_comma_items (d : Document) (done : List Document) (stack : List Frame) (s : List Char) :
    settle d (.items done :: stack) (',' :: s) = .next (.items (d :: done) :: stack) s := by
  rw [settle.eq_def]
  simp [skipBlanks_cons (show isBlank ',' = false by decide)]

theorem settle_close_items (d : Document) (done : List Document) (stack : List Frame) (s : List Char) :
    settle d (.items done :: stack) (']' :: s) = settle (.array (d :: done).reverse none) stack s := by
  rw [settle.eq_def]
  simp [skipBlanks_cons (show isBlank ']' = false by decide)]

theorem settle_comma_members (d : Document) (done : List (Key × Document)) (key : Key) (stack : List Frame)
    (s : List Char) :
    settle d (.members done key :: stack) (',' :: s) = member ((key, d) :: done) stack s := by
  rw [settle.eq_def]
  simp [skipBlanks_cons (show isBlank ',' = false by decide)]

theorem settle_close_members (d : Document) (done : List (Key × Document)) (key : Key) (stack : List Frame)
    (s : List Char) :
    settle d (.members done key :: stack) ('}' :: s) = settle (.object ((key, d) :: done).reverse none) stack s := by
  rw [settle.eq_def]
  simp [skipBlanks_cons (show isBlank '}' = false by decide)]

theorem member_key {bs : List Char} (hbs : ∀ b ∈ bs, isBlank b = true) (k : String) (done : List (Key × Document))
    (stack : List Frame) (s : List Char) :
    member done stack (Quoted.chars k ++ (bs ++ ':' :: s)) = .next (.members done (.text (.ok k)) :: stack) s := by
  rw [Quoted.chars, member, List.cons_append, List.cons_append, skipBlanks_cons (by decide)]
  simp [Quoted.read_chars, skipBlanks_blanks hbs, skipBlanks_cons (show isBlank ':' = false by decide)]

theorem enter_leaf (hc : isBlank c = false) (harray : c ≠ '[') (hobject : c ≠ '{')
    (hleaf : leaf (c :: s) = (d, after)) (hd : ∀ b, d ≠ .broken b) (stack : List Frame) :
    enter stack (c :: s) = settle d stack after := by
  rw [enter, skipBlanks_cons hc]
  simp only [if_neg harray, if_neg hobject, hleaf]

theorem enter_null (stack : List Frame) (rest : List Char) :
    enter stack ('n' :: 'u' :: 'l' :: 'l' :: rest) = settle .null stack rest := by
  have hleaf : leaf ('n' :: 'u' :: 'l' :: 'l' :: rest) = (.null, rest) := rfl
  exact enter_leaf (by decide) (by decide) (by decide) hleaf (by simp) stack

theorem enter_true (stack : List Frame) (rest : List Char) :
    enter stack ('t' :: 'r' :: 'u' :: 'e' :: rest) = settle (.bool true) stack rest := by
  have hleaf : leaf ('t' :: 'r' :: 'u' :: 'e' :: rest) = (.bool true, rest) := rfl
  exact enter_leaf (by decide) (by decide) (by decide) hleaf (by simp) stack

theorem enter_false (stack : List Frame) (rest : List Char) :
    enter stack ('f' :: 'a' :: 'l' :: 's' :: 'e' :: rest) = settle (.bool false) stack rest := by
  have hleaf : leaf ('f' :: 'a' :: 'l' :: 's' :: 'e' :: rest) = (.bool false, rest) := rfl
  exact enter_leaf (by decide) (by decide) (by decide) hleaf (by simp) stack

theorem enter_string (s : String) (stack : List Frame) (rest : List Char) :
    enter stack (Quoted.chars s ++ rest) = settle (.string (.ok s)) stack rest := by
  have hleaf : leaf (Quoted.chars s ++ rest) = (.string (.ok s), rest) := by
    simp [Quoted.chars, leaf, quoted, Quoted.read_chars]
  exact enter_leaf (by decide) (by decide) (by decide) hleaf (by simp) stack

/-- Begins a numeral, and nothing else. -/
def StartsNumeral (c : Char) : Prop :=
  isBlank c = false ∧ c ∉ ['[', ']', '{', 'n', 't', 'f', '"'] ∧ (c = '-' ∨ ('0' ≤ c ∧ c ≤ '9'))

theorem startsNumeral_digitChar : ∀ d : Fin 10, StartsNumeral (Numeral.digitChar d) := by
  unfold StartsNumeral
  decide

theorem chars_eq_cons (n : Numeral) : ∃ c cs, n.chars = c :: cs ∧ StartsNumeral c := by
  obtain ⟨d, cs, hdigits⟩ := Numeral.toDigits_eq_cons n.whole
  rw [Numeral.chars_eq, hdigits]
  cases n.negative with
  | true => exact ⟨_, _, rfl, by decide, by decide, .inl rfl⟩
  | false => exact ⟨_, _, rfl, startsNumeral_digitChar d⟩

theorem enter_number (n : Numeral) (stack : List Frame) (hrest : Numeral.Ends rest) :
    enter stack (n.chars ++ rest) = settle (.number n) stack rest := by
  have hread := Numeral.read_chars n hrest
  obtain ⟨c, cs, hcs, hblank, hother, hnumber⟩ := chars_eq_cons n
  simp only [List.mem_cons, List.not_mem_nil, or_false, not_or] at hother
  obtain ⟨harray, -, hobject, hnull, htrue, hfalse, hmark⟩ := hother
  rw [hcs, List.cons_append] at hread ⊢
  have hleaf : leaf (c :: (cs ++ rest)) = (.number n, rest) := by
    simp [leaf, hnull, htrue, hfalse, hmark, hnumber, numeral, hread]
  exact enter_leaf hblank harray hobject hleaf (by simp) stack

/-! ## Any text of a value -/

/-- Goes on from a turn until the outermost value is complete. -/
def resume : Turn → Document × List Char
  | .done d rest => (d, rest)
  | .next stack rest => run stack rest

theorem run_eq_resume (stack : List Frame) (s : List Char) : run stack s = resume (enter stack s) := by
  rw [run]
  split
  · next h => rw [h, resume]
  · next stack' rest h =>
      show run stack' rest = _
      rw [h, resume]

/-- A text is never taken for the end of an array. -/
theorem exists_skipBlanks_written : {v : Value} → {cs : List Char} → Written v cs → ∀ rest,
    ∃ c after, skipBlanks (cs ++ rest) = c :: after ∧ c ≠ ']'
  | _, _, .blank hb h, rest => by
      rw [List.cons_append, skipBlanks_blank hb]
      exact exists_skipBlanks_written h rest
  | _, _, .null, _ => ⟨_, _, rfl, by decide⟩
  | _, _, .true, _ => ⟨_, _, rfl, by decide⟩
  | _, _, .false, _ => ⟨_, _, rfl, by decide⟩
  | _, _, .number n, rest => by
      obtain ⟨c, cs, hcs, hblank, hother, -⟩ := chars_eq_cons n
      rw [hcs, List.cons_append, skipBlanks_cons hblank]
      exact ⟨c, _, rfl, fun hc => hother (by simp [hc])⟩
  | _, _, .string _, _ => ⟨_, _, rfl, by decide⟩
  | _, _, .emptyArray _, _ => ⟨_, _, rfl, by decide⟩
  | _, _, .array _ _, _ => ⟨_, _, rfl, by decide⟩
  | _, _, .emptyObject _, _ => ⟨_, _, rfl, by decide⟩
  | _, _, .object _ _, _ => ⟨_, _, rfl, by decide⟩

theorem exists_skipBlanks_writtenMember {m : String × Value} {cs : List Char} :
    WrittenMember m cs → ∀ rest, ∃ c after, skipBlanks (cs ++ rest) = c :: after ∧ c ≠ '}'
  | .blank hb h, rest => by
      rw [List.cons_append, skipBlanks_blank hb]
      exact exists_skipBlanks_writtenMember h rest
  | .member _ _, _ => ⟨_, _, rfl, by decide⟩

theorem ends_blank (hb : isBlank b = true) (s : List Char) : Numeral.Ends (b :: s) := by
  rintro c ⟨⟩
  simp only [isBlank, Bool.or_eq_true, beq_iff_eq] at hb
  rcases hb with ((rfl | rfl) | rfl) | rfl <;> decide

theorem ends_delimiter (hc : c = ',' ∨ c = ']' ∨ c = '}') (s : List Char) : Numeral.Ends (c :: s) := by
  rintro c ⟨⟩
  rcases hc with rfl | rfl | rfl <;> decide

theorem ends_writtenItems {vs : List Value} {ds : List Char} (h : WrittenItems vs ds) (rest : List Char) :
    Numeral.Ends (ds ++ rest) := by
  cases h with
  | blank hb _ => exact ends_blank hb _
  | close => exact ends_delimiter (.inr (.inl rfl)) _
  | next _ _ => exact ends_delimiter (.inl rfl) _

theorem ends_writtenMembers {ms : List (String × Value)} {ds : List Char} (h : WrittenMembers ms ds)
    (rest : List Char) : Numeral.Ends (ds ++ rest) := by
  cases h with
  | blank hb _ => exact ends_blank hb _
  | close => exact ends_delimiter (.inr (.inr rfl)) _
  | next _ _ => exact ends_delimiter (.inl rfl) _

mutual

/-- A text of a value is read as the value, and the reader goes on behind it. -/
theorem resume_enter : {v : Value} → {cs : List Char} → Written v cs → ∀ {rest}, Numeral.Ends rest →
    ∀ stack, resume (enter stack (cs ++ rest)) = resume (settle (.ofValue v) stack rest)
  | _, _, .blank hb h, _, hrest, stack => by
      rw [List.cons_append, enter_blank hb]
      exact resume_enter h hrest stack
  | _, _, .null, rest, _, stack => congrArg resume (enter_null stack rest)
  | _, _, .true, rest, _, stack => congrArg resume (enter_true stack rest)
  | _, _, .false, rest, _, stack => congrArg resume (enter_false stack rest)
  | _, _, .number n, _, hrest, stack => congrArg resume (enter_number n stack hrest)
  | _, _, .string s, rest, _, stack => congrArg resume (enter_string s stack rest)
  | _, _, .emptyArray hbs, rest, _, stack => by
      have hclose : skipBlanks (_ ++ ']' :: rest) = ']' :: rest := skipBlanks_blanks hbs _
      rw [List.cons_append, List.append_assoc]
      exact congrArg resume (enter_emptyArray hclose stack)
  | _, _, .array h hs, rest, _, stack => by
      -- The item begins with no bracket, so that the reader asks for it.
      obtain ⟨c, after, hskip, hc⟩ := exists_skipBlanks_written h (_ ++ rest)
      rw [List.cons_append, List.append_assoc, enter_array hskip hc, resume, run_eq_resume,
        resume_enter h (ends_writtenItems hs rest), resume_settle_items hs]
      rfl
  | _, _, .emptyObject hbs, rest, _, stack => by
      have hclose : skipBlanks (_ ++ '}' :: rest) = '}' :: rest := skipBlanks_blanks hbs _
      rw [List.cons_append, List.append_assoc]
      exact congrArg resume (enter_emptyObject hclose stack)
  | _, _, .object h hs, rest, _, stack => by
      obtain ⟨c, after, hskip, hc⟩ := exists_skipBlanks_writtenMember h (_ ++ rest)
      rw [List.cons_append, List.append_assoc, enter_object hskip hc,
        resume_member h (ends_writtenMembers hs rest), resume_settle_members hs]
      rfl

theorem resume_settle_items : {vs : List Value} → {ds : List Char} → WrittenItems vs ds → ∀ {rest} d done stack,
    resume (settle d (.items done :: stack) (ds ++ rest)) =
      resume (settle (.array (done.reverse ++ d :: Document.ofItems vs) none) stack rest)
  | _, _, .blank hb h, rest, d, done, stack => by
      rw [List.cons_append, settle_blank hb]
      exact resume_settle_items h d done stack
  | _, _, .close, rest, d, done, stack => by
      rw [List.singleton_append, settle_close_items, List.reverse_cons]
      rfl
  | _, _, .next h hs, rest, d, done, stack => by
      rw [List.cons_append, List.append_assoc, settle_comma_items, resume, run_eq_resume,
        resume_enter h (ends_writtenItems hs rest), resume_settle_items hs, List.reverse_cons, List.append_assoc]
      rfl

theorem resume_member : {m : String × Value} → {cs : List Char} → WrittenMember m cs → ∀ {rest},
    Numeral.Ends rest → ∀ done stack,
      resume (member done stack (cs ++ rest)) =
        resume (settle (.ofValue m.2) (.members done (.text (.ok m.1)) :: stack) rest)
  | _, _, .blank hb h, rest, hrest, done, stack => by
      rw [List.cons_append, member_blank hb]
      exact resume_member h hrest done stack
  | _, _, .member hbs h, rest, hrest, done, stack => by
      rw [List.append_assoc, List.append_assoc, List.cons_append, member_key hbs, resume, run_eq_resume,
        resume_enter h hrest]

theorem resume_settle_members : {ms : List (String × Value)} → {ds : List Char} → WrittenMembers ms ds →
    ∀ {rest} d done key stack,
      resume (settle d (.members done key :: stack) (ds ++ rest)) =
        resume (settle (.object (done.reverse ++ (key, d) :: Document.ofMembers ms) none) stack rest)
  | _, _, .blank hb h, rest, d, done, key, stack => by
      rw [List.cons_append, settle_blank hb]
      exact resume_settle_members h d done key stack
  | _, _, .close, rest, d, done, key, stack => by
      rw [List.singleton_append, settle_close_members, List.reverse_cons]
      rfl
  | _, _, .next h hs, rest, d, done, key, stack => by
      rw [List.cons_append, List.append_assoc, settle_comma_members, resume_member h (ends_writtenMembers hs rest),
        resume_settle_members hs, List.reverse_cons, List.append_assoc]
      rfl

end

theorem run_written {cs : List Char} (h : Written v cs) : run [] cs = (.ofValue v, []) := by
  have hends : Numeral.Ends [] := nofun
  have hread := resume_enter h hends []
  rwa [List.append_nil, ← run_eq_resume, settle, resume] at hread

end Reader

theorem readText_written {v : Value} {cs : List Char} (h : Written v cs) :
    readText (String.ofList cs) = (.ofValue v, true) := by
  rw [readText, String.toList_ofList, Reader.run_written h]
  rfl

/-- Reading a text of a value as a type is reading the value. -/
theorem decode_written {α : Type} (read : Document → Except Fault α) {v : Value} {cs : List Char}
    (h : Written v cs) : decode read (String.ofList cs) = read (.ofValue v) := by
  rw [decode, readText_written h]
  cases hread : read (.ofValue v) <;> simp [hread, bind, Except.bind]

theorem decode_compact {α : Type} (read : Document → Except Fault α) (v : Value) :
    decode read v.compact = read (.ofValue v) :=
  decode_written read (written_chars v)

end MethodSearch.Json
