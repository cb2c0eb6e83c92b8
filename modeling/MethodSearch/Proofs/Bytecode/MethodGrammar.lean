import MethodSearch.Bytecode.JavaClass
import MethodSearch.Proofs.Bytecode.Grammar

/-!
# The grammar of method descriptors

The descriptor of a method is an opening bracket, the texts of its parameters with nothing between them, a closing
bracket and the text of its result. Class names may hold brackets themselves, and still a text is put together from such
pieces in one way only. The reader takes it apart in that way, and lays any fault on the whole text.
-/

namespace MethodSearch.Bytecode.MethodType

open JavaType (IsFieldText)

variable {m k : MethodType} {parameters others : List (List Char)} {result other s : List Char} {text : String}

/-- A text is put together from the texts of parameters and the text of a result. -/
structure IsSplit (parameters : List (List Char)) (result s : List Char) : Prop where
  field : ∀ p ∈ parameters, ∃ n, IsFieldText n p
  returned : result = ['V'] ∨ ∃ n, IsFieldText n result
  whole : s = '(' :: parameters.flatten ++ ')' :: result

theorem WellFormed.isSplit (h : m.WellFormed) : IsSplit (m.parameters.map JavaType.chars) m.result.chars m.chars := by
  refine ⟨?_, ?_, ?_⟩
  · intro p hp
    obtain ⟨t, ht, rfl⟩ := List.mem_map.mp hp
    exact ⟨t.dimensions, (h.1 t ht).isFieldText⟩
  · rcases h.2 with hvoid | hfield
    · exact .inl (by rw [hvoid, JavaType.chars])
    · exact .inr ⟨m.result.dimensions, hfield.isFieldText⟩
  · rw [chars, List.flatMap_def]

theorem exists_parameters (h : ∀ p ∈ parameters, ∃ n, IsFieldText n p) :
    ∃ ts : List JavaType, (∀ t ∈ ts, t.IsField) ∧ ts.map JavaType.chars = parameters := by
  induction parameters with
  | nil => exact ⟨[], nofun, rfl⟩
  | cons p parameters ih =>
      rw [List.forall_mem_cons] at h
      obtain ⟨n, hp⟩ := h.1
      obtain ⟨t, ht, rfl, -⟩ := hp.exists_isField
      obtain ⟨ts, hts, rfl⟩ := ih h.2
      exact ⟨t :: ts, List.forall_mem_cons.mpr ⟨ht, hts⟩, rfl⟩

theorem exists_result (h : result = ['V'] ∨ ∃ n, IsFieldText n result) :
    ∃ t : JavaType, t.WellFormed ∧ t.chars = result := by
  rcases h with rfl | ⟨n, hn⟩
  · exact ⟨.void, .inl rfl, rfl⟩
  · obtain ⟨t, ht, hchars, -⟩ := hn.exists_isField
    exact ⟨t, .inr ht, hchars⟩

/-- The pieces of a text are the texts of types. -/
theorem IsSplit.exists_wellFormed (h : IsSplit parameters result s) :
    ∃ m : MethodType, m.WellFormed ∧ m.parameters.map JavaType.chars = parameters ∧ m.result.chars = result ∧
      m.chars = s := by
  obtain ⟨ts, hts, rfl⟩ := exists_parameters h.field
  obtain ⟨t, ht, rfl⟩ := exists_result h.returned
  refine ⟨⟨ts, t⟩, ⟨hts, ht⟩, rfl, rfl, ?_⟩
  rw [chars, List.flatMap_def, h.whole]

/-- Methods that are written alike are read back as the same one. -/
theorem WellFormed.eq_of_chars (hm : m.WellFormed) (hk : k.WellFormed) (h : m.chars = k.chars) : m = k := by
  have hrender : m.render = k.render := congrArg String.ofList h
  have hread : parse m.render = .ok k := hrender ▸ parse_render hk
  exact Except.ok.inj ((parse_render hm).symm.trans hread)

theorem IsSplit.unique (h : IsSplit parameters result s) (h' : IsSplit others other s) :
    parameters = others ∧ result = other := by
  obtain ⟨m, hm, rfl, rfl, hchars⟩ := h.exists_wellFormed
  obtain ⟨k, hk, rfl, rfl, hchars'⟩ := h'.exists_wellFormed
  obtain rfl := hm.eq_of_chars hk (hchars.trans hchars'.symm)
  exact ⟨rfl, rfl⟩

theorem isSplit_of_parse (h : parse text = .ok m) :
    IsSplit (m.parameters.map JavaType.chars) m.result.chars text.toList := by
  obtain ⟨hm, rfl⟩ := parse_eq_ok_iff.mp h
  rw [render, String.toList_ofList]
  exact hm.isSplit

theorem IsSplit.exists_parse (h : IsSplit parameters result text.toList) : ∃ m, parse text = .ok m := by
  obtain ⟨m, hm, -, -, hchars⟩ := h.exists_wellFormed
  refine ⟨m, parse_eq_ok_iff.mpr ⟨hm, ?_⟩⟩
  rw [render, hchars, String.ofList_toList]

theorem exists_ofDescriptor (h : parse text = .ok m) (name : String) (access : Access) :
    ∃ method, Method.ofDescriptor name text access = .ok method ∧ method.descriptor = text := by
  refine ⟨⟨name, m.result, m.parameters, access, []⟩, ?_, (parse_eq_ok_iff.mp h).2⟩
  rw [Method.ofDescriptor, h, Except.map]

/-! ## The whole grammar -/

/-- A text is read as a method descriptor if and only if it is put together from the texts of parameters and of a
result. The method is then written as the text, and so is any method made from it. Parameters that are no `void` and a
result, all of which can stand in a class file, are read back from their text as they are, and no text is put together
in two ways. A text that is refused is reported as it is. -/
theorem parse_pieces :
    (∀ text, (∃ m, parse text = .ok m) ↔ ∃ parameters result, IsSplit parameters result text.toList) ∧
      (∀ text m, parse text = .ok m → m.render = text ∧
        ∀ name access, ∃ method, Method.ofDescriptor name text access = .ok method ∧ method.descriptor = text) ∧
      (∀ (ts : List JavaType) (t : JavaType), (∀ u ∈ ts, u.WellFormed ∧ u ≠ .void) → t.WellFormed →
        parse (render ⟨ts, t⟩) = .ok ⟨ts, t⟩) ∧
      (∀ s parameters result others other,
        IsSplit parameters result s → IsSplit others other s → parameters = others ∧ result = other) ∧
      ∀ text fault, parse text = .error fault → fault = .invalidDescriptor text := by
  refine ⟨?_, ?_, ?_, ?_, ?_⟩
  · intro text
    constructor
    · rintro ⟨m, hm⟩
      exact ⟨_, _, isSplit_of_parse hm⟩
    · rintro ⟨parameters, result, h⟩
      exact h.exists_parse
  · intro text m hm
    exact ⟨(parse_eq_ok_iff.mp hm).2, exists_ofDescriptor hm⟩
  · intro ts t hts ht
    refine parse_render ⟨fun u hu => ?_, ht⟩
    obtain ⟨hvoid | hfield, hne⟩ := hts u hu
    · exact absurd hvoid hne
    · exact hfield
  · intro s parameters result others other h h'
    exact h.unique h'
  · intro text fault h
    exact (parse_eq_error_iff.mp h).2

/-- Class names made of brackets, arrays of them, and a text that stops before its result. -/
theorem parse_pieces_brackets :
    let text := "(L();[L)[;I)L(;"
    (∃ m, parse text = .ok m ∧ m.render = text ∧
        m.parameters = [.object "()", .array (.object ")["), .primitive .int] ∧ m.result = .object "(") ∧
      (∃ method, Method.ofDescriptor "m" text ⟨1⟩ = .ok method ∧ method.descriptor = text) ∧
      parse "(L)V" = .error (.invalidDescriptor "(L)V") := by
  obtain ⟨-, hwritten, hread, -, hrefused⟩ := parse_pieces
  have hback : parse "(L();[L)[;I)L(;" =
      .ok ⟨[.object "()", .array (.object ")["), .primitive .int], .object "("⟩ :=
    hread [.object "()", .array (.object ")["), .primitive .int] (.object "(") (by decide) (by decide)
  obtain ⟨hrender, hmethod⟩ := hwritten _ _ hback
  have hfault : ∃ fault, parse "(L)V" = .error fault := ⟨.invalidDescriptor "(L)V", by decide +kernel⟩
  obtain ⟨fault, hfault⟩ := hfault
  refine ⟨⟨_, hback, hrender, rfl, rfl⟩, hmethod "m" ⟨1⟩, ?_⟩
  rw [hfault, hrefused _ _ hfault]

end MethodSearch.Bytecode.MethodType
