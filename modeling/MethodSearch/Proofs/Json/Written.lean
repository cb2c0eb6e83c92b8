import MethodSearch.Json.Print
import MethodSearch.Json.Reader

/-!
# Texts of a value

A value has many texts, which differ in the blanks between their parts. The compact text is one of them.
-/

namespace MethodSearch.Json

open Reader (isBlank)

/-- An induction in which every item and every member is smaller than its container. -/
theorem Value.byParts {P : Value → Prop} (null : P .null) (bool : ∀ b, P (.bool b)) (number : ∀ n, P (.number n))
    (string : ∀ s, P (.string s)) (array : ∀ vs, (∀ v ∈ vs, P v) → P (.array vs))
    (object : ∀ ms : List (String × Value), (∀ m ∈ ms, P m.2) → P (.object ms)) : (v : Value) → P v
  | .null => null
  | .bool b => bool b
  | .number n => number n
  | .string s => string s
  | .array vs => array vs fun v hv =>
      have := List.sizeOf_lt_of_mem hv
      Value.byParts null bool number string array object v
  | .object ms => object ms fun (k, v) hm =>
      have := List.sizeOf_lt_of_mem hm
      Value.byParts null bool number string array object v
termination_by v => sizeOf v
decreasing_by
  · simp only [Value.array.sizeOf_spec]
    omega
  · simp only [Value.object.sizeOf_spec, Prod.mk.sizeOf_spec] at *
    omega

mutual

/-- The characters are a text of the value, perhaps behind blanks. -/
inductive Written : Value → List Char → Prop
  | blank {b : Char} {v : Value} {cs : List Char} : isBlank b = true → Written v cs → Written v (b :: cs)
  | null : Written .null ['n', 'u', 'l', 'l']
  | true : Written (.bool true) ['t', 'r', 'u', 'e']
  | false : Written (.bool false) ['f', 'a', 'l', 's', 'e']
  | number (n : Numeral) : Written (.number n) n.chars
  | string (s : String) : Written (.string s) (Quoted.chars s)
  | emptyArray {bs : List Char} : (∀ b ∈ bs, isBlank b = true) → Written (.array []) ('[' :: (bs ++ [']']))
  | array {v : Value} {vs : List Value} {cs ds : List Char} :
      Written v cs → WrittenItems vs ds → Written (.array (v :: vs)) ('[' :: (cs ++ ds))
  | emptyObject {bs : List Char} : (∀ b ∈ bs, isBlank b = true) → Written (.object []) ('{' :: (bs ++ ['}']))
  | object {m : String × Value} {ms : List (String × Value)} {cs ds : List Char} :
      WrittenMember m cs → WrittenMembers ms ds → Written (.object (m :: ms)) ('{' :: (cs ++ ds))

/-- What stands behind an item: the other items and the closing bracket. -/
inductive WrittenItems : List Value → List Char → Prop
  | blank {b : Char} {vs : List Value} {ds : List Char} :
      isBlank b = true → WrittenItems vs ds → WrittenItems vs (b :: ds)
  | close : WrittenItems [] [']']
  | next {v : Value} {vs : List Value} {cs ds : List Char} :
      Written v cs → WrittenItems vs ds → WrittenItems (v :: vs) (',' :: (cs ++ ds))

/-- A key, a colon and a value. -/
inductive WrittenMember : String × Value → List Char → Prop
  | blank {b : Char} {m : String × Value} {cs : List Char} :
      isBlank b = true → WrittenMember m cs → WrittenMember m (b :: cs)
  | member {k : String} {v : Value} {bs cs : List Char} :
      (∀ b ∈ bs, isBlank b = true) → Written v cs → WrittenMember (k, v) (Quoted.chars k ++ (bs ++ ':' :: cs))

/-- What stands behind a member: the other members and the closing brace. -/
inductive WrittenMembers : List (String × Value) → List Char → Prop
  | blank {b : Char} {ms : List (String × Value)} {ds : List Char} :
      isBlank b = true → WrittenMembers ms ds → WrittenMembers ms (b :: ds)
  | close : WrittenMembers [] ['}']
  | next {m : String × Value} {ms : List (String × Value)} {cs ds : List Char} :
      WrittenMember m cs → WrittenMembers ms ds → WrittenMembers (m :: ms) (',' :: (cs ++ ds))

end

variable {bs : List Char}

theorem forall_blank_nil : ∀ b ∈ ([] : List Char), isBlank b = true := nofun

/-- Whatever may stand behind one blank may stand behind several. -/
theorem blanks_append {P : List Char → Prop} (hblank : ∀ b cs, isBlank b = true → P cs → P (b :: cs))
    (hbs : ∀ b ∈ bs, isBlank b = true) {cs : List Char} (h : P cs) : P (bs ++ cs) := by
  induction bs with
  | nil => exact h
  | cons b bs ih =>
      rw [List.forall_mem_cons] at hbs
      exact hblank b _ hbs.1 (ih hbs.2)

/-- Texts of the other items, with blanks before the closing bracket. -/
theorem WrittenItems.flatMap {text : Value → List Char} {vs : List Value} (hbs : ∀ b ∈ bs, isBlank b = true)
    (h : ∀ v ∈ vs, Written v (text v)) : WrittenItems vs (vs.flatMap (fun v => ',' :: text v) ++ (bs ++ [']'])) := by
  induction vs with
  | nil => exact blanks_append (fun _ _ => .blank) hbs .close
  | cons v vs ih =>
      rw [List.forall_mem_cons] at h
      rw [List.flatMap_cons, List.cons_append, List.cons_append, List.append_assoc]
      exact .next h.1 (ih h.2)

theorem WrittenMembers.flatMap {text : String × Value → List Char} {ms : List (String × Value)}
    (hbs : ∀ b ∈ bs, isBlank b = true) (h : ∀ m ∈ ms, WrittenMember m (text m)) :
    WrittenMembers ms (ms.flatMap (fun m => ',' :: text m) ++ (bs ++ ['}'])) := by
  induction ms with
  | nil => exact blanks_append (fun _ _ => .blank) hbs .close
  | cons m ms ih =>
      rw [List.forall_mem_cons] at h
      rw [List.flatMap_cons, List.cons_append, List.cons_append, List.append_assoc]
      exact .next h.1 (ih h.2)

/-! ## The compact text -/

namespace Value

theorem itemChars_cons (v : Value) (vs : List Value) :
    itemChars (v :: vs) = v.chars ++ vs.flatMap fun w => ',' :: w.chars := by
  induction vs generalizing v with
  | nil => rw [itemChars, List.flatMap_nil, List.append_nil]
  | cons w vs ih =>
      rw [itemChars, ih, List.flatMap_cons, List.cons_append]
      simp

theorem memberChars_cons (m : String × Value) (ms : List (String × Value)) :
    memberChars (m :: ms) = Quoted.chars m.1 ++ ':' :: m.2.chars ++
      ms.flatMap fun w => ',' :: (Quoted.chars w.1 ++ ':' :: w.2.chars) := by
  induction ms generalizing m with
  | nil => rw [memberChars, List.flatMap_nil, List.append_nil]
  | cons w ms ih =>
      rw [memberChars, ih, List.flatMap_cons]
      · simp
      · nofun

end Value

theorem WrittenMember.chars {m : String × Value} (h : Written m.2 m.2.chars) :
    WrittenMember m (Quoted.chars m.1 ++ ':' :: m.2.chars) :=
  .member forall_blank_nil h

theorem written_chars (v : Value) : Written v v.chars := by
  induction v using Value.byParts with
  | null => exact .null
  | bool b =>
      cases b with
      | true => exact .true
      | false => exact .false
  | number n => exact .number n
  | string s => exact .string s
  | array vs ih =>
      cases vs with
      | nil => exact .emptyArray forall_blank_nil
      | cons v vs =>
          rw [List.forall_mem_cons] at ih
          rw [Value.chars, Value.itemChars_cons, List.cons_append, List.append_assoc]
          exact .array ih.1 (.flatMap forall_blank_nil ih.2)
  | object ms ih =>
      cases ms with
      | nil => exact .emptyObject forall_blank_nil
      | cons m ms =>
          rw [List.forall_mem_cons] at ih
          rw [Value.chars, Value.memberChars_cons, List.cons_append, List.append_assoc]
          exact .object (.chars ih.1) (.flatMap forall_blank_nil fun m hm => .chars (ih.2 m hm))

end MethodSearch.Json
