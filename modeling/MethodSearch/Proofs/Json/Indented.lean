import MethodSearch.Proofs.Json.Reader

/-!
# The indented text

The text over several lines is a text of the same value: it has blanks where the compact text has none.
-/

namespace MethodSearch.Json

open Reader (isBlank)

theorem isBlank_of_mem_newLine {level : Nat} : ∀ b ∈ Value.newLine level, isBlank b = true := by
  intro b hb
  rw [Value.newLine, List.mem_cons, List.mem_replicate] at hb
  rcases hb with rfl | ⟨-, rfl⟩ <;> decide

namespace Value

/-- An item on a line of its own. -/
def indentedItem (level : Nat) (v : Value) : List Char :=
  newLine level ++ indentedChars level v

/-- A member on a line of its own. -/
def indentedMember (level : Nat) (m : String × Value) : List Char :=
  newLine level ++ (Quoted.chars m.1 ++ ':' :: ' ' :: indentedChars level m.2)

theorem indentedItems_cons (level : Nat) (v : Value) (vs : List Value) :
    indentedItems level (v :: vs) = indentedItem level v ++ vs.flatMap fun w => ',' :: indentedItem level w := by
  induction vs generalizing v with
  | nil => rw [indentedItems, List.flatMap_nil, List.append_nil, indentedItem]
  | cons w vs ih =>
      rw [indentedItems, ih, List.flatMap_cons]
      · simp [indentedItem]
      · nofun

theorem indentedMembers_cons (level : Nat) (m : String × Value) (ms : List (String × Value)) :
    indentedMembers level (m :: ms) = indentedMember level m ++ ms.flatMap fun w => ',' :: indentedMember level w := by
  induction ms generalizing m with
  | nil =>
      rw [indentedMembers, List.flatMap_nil, List.append_nil, indentedMember]
      simp
  | cons w ms ih =>
      rw [indentedMembers, ih, List.flatMap_cons]
      · simp [indentedMember]
      · nofun

end Value

theorem written_indentedItem {v : Value} {level : Nat} (h : Written v (v.indentedChars level)) :
    Written v (Value.indentedItem level v) :=
  blanks_append (fun _ _ => .blank) isBlank_of_mem_newLine h

theorem writtenMember_indentedMember {m : String × Value} {level : Nat} (h : Written m.2 (m.2.indentedChars level)) :
    WrittenMember m (Value.indentedMember level m) :=
  blanks_append (fun _ _ => .blank) isBlank_of_mem_newLine (.member forall_blank_nil (.blank rfl h))

theorem written_indentedChars (v : Value) (level : Nat) : Written v (v.indentedChars level) := by
  induction v using Value.byParts generalizing level with
  | null => exact .null
  | bool b =>
      cases b with
      | true => exact .true
      | false => exact .false
  | number n => exact .number n
  | string s => exact .string s
  | array vs ih =>
      cases vs with
      | nil => exact .emptyArray forall_blank_nil
      | cons v vs =>
          rw [List.forall_mem_cons] at ih
          rw [Value.indentedChars, Value.indentedItems_cons, List.cons_append, List.cons_append, List.append_assoc,
            List.append_assoc]
          exact .array (written_indentedItem (ih.1 _))
            (.flatMap isBlank_of_mem_newLine fun w hw => written_indentedItem (ih.2 w hw _))
  | object ms ih =>
      cases ms with
      | nil => exact .emptyObject forall_blank_nil
      | cons m ms =>
          rw [List.forall_mem_cons] at ih
          rw [Value.indentedChars, Value.indentedMembers_cons, List.cons_append, List.cons_append, List.append_assoc,
            List.append_assoc]
          exact .object (writtenMember_indentedMember (ih.1 _))
            (.flatMap isBlank_of_mem_newLine fun m hm => writtenMember_indentedMember (ih.2 m hm _))

theorem decode_indented {α : Type} (read : Document → Except Fault α) (v : Value) :
    decode read v.indented = read (.ofValue v) :=
  decode_written read (written_indentedChars v 0)

end MethodSearch.Json
