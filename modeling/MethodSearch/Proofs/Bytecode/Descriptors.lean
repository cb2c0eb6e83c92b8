import MethodSearch.Bytecode.Read
import MethodSearch.Proofs.Text.Pieces

/-!
# Descriptors read back

The descriptor of a type that a class file can have is read as that type, and likewise the descriptor of a method. Class
names must not be empty and must not hold the semicolon that ends them, and `void` stands alone.
-/

namespace MethodSearch.Bytecode

namespace JavaType

variable {t : JavaType} {rest : List Char}

/-- The type of a field or parameter. -/
def IsField : JavaType → Prop
  | .void => False
  | .primitive _ => True
  | .object name => name ≠ "" ∧ ';' ∉ name.toList
  | .array element => element.IsField

instance decidableIsField : DecidablePred IsField
  | .void => isFalse id
  | .primitive _ => isTrue trivial
  | .object name => inferInstanceAs (Decidable (name ≠ "" ∧ ';' ∉ name.toList))
  | .array element => decidableIsField element

/-- A field type, or `void` on its own. -/
def WellFormed (t : JavaType) : Prop :=
  t = .void ∨ t.IsField

instance : DecidablePred WellFormed :=
  fun t => inferInstanceAs (Decidable (t = .void ∨ t.IsField))

theorem readName_append {name : List Char} (h : ';' ∉ name) (rest : List Char) :
    readName (name ++ ';' :: rest) = some (name, rest) := by
  induction name with
  | nil => rfl
  | cons c name ih =>
      rw [List.mem_cons, not_or] at h
      rw [List.cons_append, readName, if_neg (Ne.symm h.1), ih h.2]
      rfl

theorem ofLetter?_letter (base : Primitive) : Primitive.ofLetter? base.letter = some base := by
  cases base <;> decide

theorem readField_chars (h : t.IsField) (rest : List Char) : readField (t.chars ++ rest) = .ok (t, rest) := by
  induction t with
  | void => exact h.elim
  | primitive base => simp only [chars, List.singleton_append, readField, ofLetter?_letter]
  | object name =>
      obtain ⟨hne, hsemicolon⟩ := h
      have hletter : Primitive.ofLetter? 'L' = none := by decide
      rw [chars, List.append_assoc, List.cons_append, List.singleton_append, readField, hletter]
      cases hname : name.toList with
      | nil => exact absurd (String.toList_eq_nil_iff.mp hname) hne
      | cons n cs =>
          have hread : readName (n :: cs ++ ';' :: rest) = some (n :: cs, rest) :=
            hname ▸ readName_append hsemicolon rest
          have hlist : String.ofList (n :: cs) = name := by rw [← hname, String.ofList_toList]
          simp only [hread, hlist]
          rfl
  | array element ih =>
      have hletter : Primitive.ofLetter? '[' = none := by decide
      rw [chars, List.cons_append, readField, hletter]
      simp [ih h]

theorem chars_ne_void (h : t.IsField) : t.chars ≠ ['V'] := by
  intro hchars
  have hread := readField_chars h []
  rw [List.append_nil, hchars] at hread
  cases hread

theorem readChars_chars (h : t.WellFormed) : readChars t.chars = .ok t := by
  rcases h with rfl | h
  · rfl
  · have hread := readField_chars h []
    rw [List.append_nil] at hread
    rw [readChars, if_neg (chars_ne_void h), hread]

theorem parse_render (h : t.WellFormed) : parse t.render = .ok t := by
  rw [parse, render, String.toList_ofList, readChars_chars h]
  rfl

theorem mapM_parse {ts : List JavaType} (h : ∀ t ∈ ts, t.WellFormed) : (ts.map render).mapM parse = .ok ts :=
  Text.mapM_map fun t ht => parse_render (h t ht)

end JavaType

/-! ## Methods -/

namespace MethodType

open JavaType (readField)

variable {m : MethodType}

/-- Parameters are field types. -/
def WellFormed (m : MethodType) : Prop :=
  (∀ t ∈ m.parameters, t.IsField) ∧ m.result.WellFormed

instance : DecidablePred WellFormed :=
  fun m => inferInstanceAs (Decidable ((∀ t ∈ m.parameters, t.IsField) ∧ m.result.WellFormed))

theorem readParameters_field {s after : List Char} {t : JavaType} (h : readField s = .ok (t, after)) :
    readParameters s = (readParameters after).map fun (ts, rest) => (t :: ts, rest) := by
  rw [readParameters.eq_def]
  split
  · cases h
  · split
    · next he => cases h.symm.trans he
    · next he =>
        obtain ⟨rfl, rfl⟩ := Prod.mk.inj (Except.ok.inj (h.symm.trans he))
        rfl

theorem readParameters_chars {ts : List JavaType} (h : ∀ t ∈ ts, t.IsField) (rest : List Char) :
    readParameters (ts.flatMap JavaType.chars ++ ')' :: rest) = some (ts, rest) := by
  induction ts with
  | nil => rw [List.flatMap_nil, List.nil_append, readParameters]
  | cons t ts ih =>
      rw [List.forall_mem_cons] at h
      rw [List.flatMap_cons, List.append_assoc, readParameters_field (JavaType.readField_chars h.1 _), ih h.2]
      rfl

theorem parse_render (h : m.WellFormed) : parse m.render = .ok m := by
  have hread : readChars? m.chars = some m := by
    rw [chars, List.cons_append, readChars?, readParameters_chars h.1, Option.bind_eq_bind, Option.bind_some]
    simp only [JavaType.readChars_chars h.2]
  rw [parse, render, String.toList_ofList, hread]

end MethodType

end MethodSearch.Bytecode
