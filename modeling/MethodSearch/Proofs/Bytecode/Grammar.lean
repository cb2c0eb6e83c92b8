import MethodSearch.Proofs.Bytecode.Descriptors
import MethodSearch.Proofs.Text.FirstFault

/-!
# The grammar of descriptors

A descriptor is `V`, or some opening brackets and behind them a letter or a class name between `L` and a semicolon. The
reader accepts these texts and no others, each as the only type that is written so. What it says about another text
depends on where the text stops being a descriptor.
-/

namespace MethodSearch.Bytecode

namespace JavaType

variable {n : Nat} {s e rest left : List Char} {t u : JavaType} {text : String}

/-- The text of what is no array: a letter, or a class name between its marks. -/
inductive IsElementText : List Char → Prop
  | letter {c : Char} : c ∈ ['B', 'C', 'D', 'F', 'I', 'J', 'S', 'Z'] → IsElementText [c]
  | object {name : List Char} : name ≠ [] → ';' ∉ name → IsElementText ('L' :: (name ++ [';']))

/-- The text of a field type of so many dimensions. -/
def IsFieldText (n : Nat) (s : List Char) : Prop :=
  ∃ e, IsElementText e ∧ s = List.replicate n '[' ++ e

/-- Some text stands behind a complete field type. -/
def GoesOn (s : List Char) : Prop :=
  ∃ n front rest, IsFieldText n front ∧ rest ≠ [] ∧ s = front ++ rest

theorem IsElementText.isFieldText (h : IsElementText e) : IsFieldText 0 e :=
  ⟨e, h, rfl⟩

theorem IsFieldText.bracket (h : IsFieldText n s) : IsFieldText (n + 1) ('[' :: s) := by
  obtain ⟨e, he, rfl⟩ := h
  exact ⟨e, he, rfl⟩

theorem letter_mem (base : Primitive) : base.letter ∈ ['B', 'C', 'D', 'F', 'I', 'J', 'S', 'Z'] := by
  cases base <;> decide

theorem exists_letter_eq {c : Char} (hc : c ∈ ['B', 'C', 'D', 'F', 'I', 'J', 'S', 'Z']) :
    ∃ base : Primitive, base.letter = c := by
  have hletters : ['B', 'C', 'D', 'F', 'I', 'J', 'S', 'Z'] = Primitive.all.map Primitive.letter := rfl
  rw [hletters] at hc
  obtain ⟨base, -, hbase⟩ := List.mem_map.mp hc
  exact ⟨base, hbase⟩

theorem IsField.isFieldText (h : t.IsField) : IsFieldText t.dimensions t.chars := by
  induction t with
  | void => exact h.elim
  | primitive base => exact (IsElementText.letter (letter_mem base)).isFieldText
  | object name =>
      refine (IsElementText.object ?_ h.2).isFieldText
      rw [ne_eq, String.toList_eq_nil_iff]
      exact h.1
  | array element ih => exact (ih h).bracket

theorem IsElementText.exists_isField (h : IsElementText e) :
    ∃ t : JavaType, t.IsField ∧ t.chars = e ∧ t.dimensions = 0 := by
  cases h with
  | letter hc =>
      obtain ⟨base, rfl⟩ := exists_letter_eq hc
      exact ⟨.primitive base, trivial, rfl, rfl⟩
  | @object name hname hsemicolon =>
      refine ⟨.object (String.ofList name), ⟨?_, ?_⟩, ?_, rfl⟩
      · rwa [ne_eq, String.ofList_eq_empty_iff]
      · rwa [String.toList_ofList]
      · rw [chars, String.toList_ofList, List.cons_append]

theorem IsFieldText.exists_isField (h : IsFieldText n s) :
    ∃ t : JavaType, t.IsField ∧ t.chars = s ∧ t.dimensions = n := by
  obtain ⟨e, he, rfl⟩ := h
  obtain ⟨t, ht, rfl, hdimensions⟩ := he.exists_isField
  induction n with
  | zero => exact ⟨t, ht, rfl, hdimensions⟩
  | succ n ih =>
      obtain ⟨u, hu, hchars, hn⟩ := ih
      refine ⟨.array u, hu, ?_, ?_⟩
      · rw [chars, hchars, List.replicate_succ, List.cons_append]
      · rw [dimensions, hn]

theorem goesOn_iff : GoesOn s ↔ ∃ (t : JavaType) (rest : List Char), t.IsField ∧ rest ≠ [] ∧ s = t.chars ++ rest := by
  constructor
  · rintro ⟨n, front, rest, hfront, hrest, rfl⟩
    obtain ⟨t, ht, rfl, -⟩ := hfront.exists_isField
    exact ⟨t, rest, ht, hrest, rfl⟩
  · rintro ⟨t, rest, ht, hrest, rfl⟩
    exact ⟨t.dimensions, t.chars, rest, ht.isFieldText, hrest, rfl⟩

/-- The first character tells the shape of a type. -/
theorem chars_injective (h : t.chars = u.chars) : t = u := by
  induction t generalizing u with
  | void =>
      cases u with
      | void => rfl
      | primitive b => cases b <;> cases h
      | object name => cases h
      | array element => cases h
  | primitive b =>
      cases u with
      | void => cases b <;> cases h
      | primitive c => cases b <;> cases c <;> first | rfl | cases h
      | object name => cases b <;> cases h
      | array element => cases b <;> cases h
  | object name =>
      cases u with
      | void => cases h
      | primitive b => cases b <;> cases h
      | object other =>
          have hnames : name.toList = other.toList := List.append_cancel_right (List.cons.inj h).2
          rw [String.toList_inj.mp hnames]
      | array element => cases h
  | array element ih =>
      cases u with
      | void => cases h
      | primitive b => cases b <;> cases h
      | object name => cases h
      | array other => rw [ih (List.cons.inj h).2]

theorem render_injective (h : t.render = u.render) : t = u :=
  chars_injective (String.ofList_injective h)

/-! ## What the reader does -/

theorem readName_sound {name : List Char} (h : readName s = some (name, rest)) :
    ';' ∉ name ∧ s = name ++ ';' :: rest := by
  fun_induction readName s generalizing name with
  | case1 => cases h
  | case2 s =>
      cases h
      exact ⟨List.not_mem_nil, rfl⟩
  | case3 c s hc ih =>
      obtain ⟨⟨name, after⟩, hread, he⟩ := Option.map_eq_some_iff.mp h
      obtain ⟨rfl, rfl⟩ := Prod.mk.inj he
      obtain ⟨hsemicolon, rfl⟩ := ih hread
      exact ⟨List.not_mem_cons_of_ne_of_not_mem (Ne.symm hc) hsemicolon, rfl⟩

theorem letter_of_ofLetter? {c : Char} {base : Primitive} (h : Primitive.ofLetter? c = some base) :
    base.letter = c := by
  have hletter := List.find?_some h
  exact eq_of_beq hletter

theorem readField_sound (h : readField s = .ok (t, rest)) : t.IsField ∧ s = t.chars ++ rest := by
  fun_induction readField s generalizing t rest with
  | case2 c s base hc =>
      cases h
      exact ⟨trivial, by rw [chars, letter_of_ofLetter? hc, List.singleton_append]⟩
  | case3 s element after hread _ ih =>
      cases h
      obtain ⟨helement, rfl⟩ := ih hread
      exact ⟨helement, rfl⟩
  | case4 s left hread _ ih => cases h
  | case5 s c name after hname _ _ =>
      cases h
      obtain ⟨hsemicolon, rfl⟩ := readName_sound hname
      refine ⟨⟨?_, ?_⟩, ?_⟩
      · rw [ne_eq, String.ofList_eq_empty_iff]
        exact List.cons_ne_nil c name
      · rwa [String.toList_ofList]
      · simp [chars]
  | _ => cases h

theorem readField_eq_ok_iff : readField s = .ok (t, rest) ↔ t.IsField ∧ s = t.chars ++ rest := by
  constructor
  · exact readField_sound
  · rintro ⟨ht, rfl⟩
    exact readField_chars ht rest

theorem readChars_eq_ok_iff : readChars s = .ok t ↔ t.WellFormed ∧ t.chars = s := by
  constructor
  · intro h
    rw [readChars] at h
    split at h
    · next hs =>
        cases h
        exact ⟨.inl rfl, hs.symm⟩
    · split at h
      · cases h
      · next hread =>
          cases h
          obtain ⟨ht, hs⟩ := readField_sound hread
          exact ⟨.inr ht, by rw [hs, List.append_nil]⟩
      · cases h
  · rintro ⟨ht, rfl⟩
    exact readChars_chars ht

theorem parse_eq_ok_iff : parse text = .ok t ↔ t.WellFormed ∧ t.render = text := by
  rw [parse, Except.mapError_eq_ok_iff, readChars_eq_ok_iff, render, ← String.toList_inj, String.toList_ofList]

/-- A field type that is not there is missed behind the brackets. -/
theorem readField_error (h : readField s = .error left) : left = s.dropWhile (· == '[') := by
  fun_induction readField s generalizing left with
  | case1 =>
      cases h
      rfl
  | case2 => cases h
  | case3 => cases h
  | case4 s left hread _ ih =>
      cases h
      rw [List.dropWhile_cons_of_pos rfl]
      exact ih hread
  | case5 => cases h
  | case6 =>
      cases h
      rfl
  | case7 c s _ hbracket _ =>
      cases h
      rw [List.dropWhile_cons_of_neg (by simpa using hbracket)]

theorem readChars_error (h : readChars s = .error left) :
    (GoesOn s → left = s) ∧ (¬GoesOn s → left = s.dropWhile (· == '[')) := by
  rw [readChars] at h
  split at h
  · cases h
  · split at h
    · next fault hread =>
        cases h
        refine ⟨fun hgoes => ?_, fun _ => readField_error hread⟩
        obtain ⟨t, rest, ht, -, rfl⟩ := goesOn_iff.mp hgoes
        cases hread.symm.trans (readField_chars ht rest)
    · cases h
    · next t c rest hread =>
        cases h
        obtain ⟨ht, hs⟩ := readField_sound hread
        have hgoes : GoesOn s := goesOn_iff.mpr ⟨t, c :: rest, ht, List.cons_ne_nil c rest, hs⟩
        exact ⟨fun _ => rfl, fun hends => absurd hgoes hends⟩

theorem parse_eq_error_iff {fault : Error} :
    parse text = .error fault ↔
      ∃ left, readChars text.toList = .error left ∧ .invalidDescriptor (String.ofList left) = fault := by
  rw [parse, Except.mapError_eq_error_iff]

theorem exists_parse_eq_ok_iff : (∃ t, parse text = .ok t) ↔ text = "V" ∨ ∃ n, IsFieldText n text.toList := by
  constructor
  · rintro ⟨t, ht⟩
    obtain ⟨rfl | hfield, rfl⟩ := parse_eq_ok_iff.mp ht
    · exact .inl rfl
    · rw [render, String.toList_ofList]
      exact .inr ⟨t.dimensions, hfield.isFieldText⟩
  · rintro (rfl | ⟨n, hn⟩)
    · exact ⟨.void, rfl⟩
    · obtain ⟨t, ht, hchars, -⟩ := hn.exists_isField
      refine ⟨t, parse_eq_ok_iff.mpr ⟨.inr ht, ?_⟩⟩
      rw [render, hchars, String.ofList_toList]

theorem dimensions_of_parse (h : parse text = .ok t) (hn : IsFieldText n text.toList) : t.dimensions = n := by
  obtain ⟨-, rfl⟩ := parse_eq_ok_iff.mp h
  obtain ⟨u, -, hchars, rfl⟩ := hn.exists_isField
  rw [render, String.toList_ofList] at hchars
  rw [chars_injective hchars]

/-- No text is read as a type that is written otherwise. -/
theorem parse_render_cases (t : JavaType) :
    (t.WellFormed ∧ parse t.render = .ok t) ∨
      ¬t.WellFormed ∧ ∃ left, parse t.render = .error (.invalidDescriptor left) := by
  cases h : parse t.render with
  | ok u =>
      obtain ⟨hu, hrender⟩ := parse_eq_ok_iff.mp h
      obtain rfl := render_injective hrender
      exact .inl ⟨hu, rfl⟩
  | error fault =>
      obtain ⟨left, -, rfl⟩ := parse_eq_error_iff.mp h
      refine .inr ⟨fun ht => ?_, String.ofList left, rfl⟩
      cases h.symm.trans (parse_render ht)

/-! ## The whole grammar -/

/-- A text is read as a type if and only if it is a descriptor. The type is written as the text and has as many
dimensions as there are brackets. A type is never read back as another one, and is read back if and only if it can stand
in a class file. A text that is refused is reported as a whole where it goes on behind a complete field type, and
without its opening brackets everywhere else. -/
theorem parse_grammar :
    (∀ text, (∃ t, parse text = .ok t) ↔ text = "V" ∨ ∃ n, IsFieldText n text.toList) ∧
      (∀ text t, parse text = .ok t →
        t.render = text ∧ ∀ n, IsFieldText n text.toList → t.dimensions = n) ∧
      (∀ t, (parse t.render = .ok t ∨ ∃ left, parse t.render = .error (.invalidDescriptor left)) ∧
        ((∃ u, parse t.render = .ok u) ↔ t.WellFormed)) ∧
      ∀ text fault, parse text = .error fault →
        (GoesOn text.toList → fault = .invalidDescriptor text) ∧
          (¬GoesOn text.toList →
            fault = .invalidDescriptor (String.ofList (text.toList.dropWhile (· == '[')))) := by
  refine ⟨fun _ => exists_parse_eq_ok_iff, ?_, ?_, ?_⟩
  · intro text t ht
    exact ⟨(parse_eq_ok_iff.mp ht).2, fun n hn => dimensions_of_parse ht hn⟩
  · intro t
    rcases t.parse_render_cases with ⟨hformed, hread⟩ | ⟨hformed, left, hread⟩
    · exact ⟨.inl hread, iff_of_true ⟨t, hread⟩ hformed⟩
    · refine ⟨.inr ⟨left, hread⟩, iff_of_false ?_ hformed⟩
      rintro ⟨u, hu⟩
      cases hread.symm.trans hu
  · intro text fault hfault
    obtain ⟨left, hread, rfl⟩ := parse_eq_error_iff.mp hfault
    obtain ⟨hgoes, hends⟩ := readChars_error hread
    refine ⟨fun h => ?_, fun h => ?_⟩
    · rw [hgoes h, String.ofList_toList]
    · rw [hends h]

/-- A class name with brackets in it, a letter with more behind it, and an array of `void`. -/
theorem parse_grammar_brackets :
    (∃ t, parse "[[L[)é;" = .ok t ∧ t.render = "[[L[)é;" ∧ t.dimensions = 2) ∧
      parse "[IV" = .error (.invalidDescriptor "[IV") ∧ parse "[[V" = .error (.invalidDescriptor "V") := by
  obtain ⟨haccepted, hwritten, -, hrefused⟩ := parse_grammar
  have hname : IsFieldText 2 "[[L[)é;".toList :=
    ⟨_, .object (show ['[', ')', 'é'] ≠ [] by decide) (by decide), rfl⟩
  have hgoes : GoesOn "[IV".toList := ⟨1, ['[', 'I'], ['V'], ⟨['I'], .letter (by decide), rfl⟩, by decide, rfl⟩
  have hends : ¬GoesOn "[[V".toList := by
    intro h
    obtain ⟨t, rest, ht, -, hs⟩ := goesOn_iff.mp h
    have hread : readField "[[V".toList = .error ['V'] := rfl
    cases hread.symm.trans (readField_eq_ok_iff.mpr ⟨ht, hs⟩)
  obtain ⟨t, ht⟩ := (haccepted _).mpr (.inr ⟨2, hname⟩)
  obtain ⟨hrender, hdimensions⟩ := hwritten _ t ht
  have hmore : ∃ fault, parse "[IV" = .error fault := ⟨_, rfl⟩
  have hvoid : ∃ fault, parse "[[V" = .error fault := ⟨_, rfl⟩
  obtain ⟨fault, hfault⟩ := hmore
  obtain ⟨fault', hfault'⟩ := hvoid
  refine ⟨⟨t, ht, hrender, hdimensions 2 hname⟩, ?_, ?_⟩
  · rw [hfault, (hrefused _ _ hfault).1 hgoes]
  · rw [hfault', (hrefused _ _ hfault').2 hends]
    rfl

end JavaType

/-! ## Methods -/

namespace MethodType

variable {s rest : List Char} {m : MethodType} {ts : List JavaType} {text : String}

theorem readParameters_sound (h : readParameters s = some (ts, rest)) :
    (∀ t ∈ ts, t.IsField) ∧ s = ts.flatMap JavaType.chars ++ ')' :: rest := by
  fun_induction readParameters s generalizing ts rest with
  | case1 rest =>
      cases h
      exact ⟨nofun, rfl⟩
  | case2 => cases h
  | case3 s _ t after hread _ ih =>
      obtain ⟨⟨us, left⟩, hrest, he⟩ := Option.map_eq_some_iff.mp h
      obtain ⟨rfl, rfl⟩ := Prod.mk.inj he
      obtain ⟨ht, rfl⟩ := JavaType.readField_sound hread
      obtain ⟨hus, rfl⟩ := ih hrest
      refine ⟨List.forall_mem_cons.mpr ⟨ht, hus⟩, ?_⟩
      rw [List.flatMap_cons, List.append_assoc]

theorem readChars?_sound (h : readChars? s = some m) : m.WellFormed ∧ m.chars = s := by
  rw [readChars?.eq_def] at h
  split at h
  · next s =>
      obtain ⟨⟨ts, after⟩, hparameters, hresult⟩ := Option.bind_eq_some_iff.mp h
      obtain ⟨hts, rfl⟩ := readParameters_sound hparameters
      cases hread : JavaType.readChars after with
      | error left => simp [hread] at hresult
      | ok t =>
          obtain rfl : ⟨ts, t⟩ = m := by simpa [hread] using hresult
          obtain ⟨ht, rfl⟩ := JavaType.readChars_eq_ok_iff.mp hread
          exact ⟨⟨hts, ht⟩, rfl⟩
  · cases h

theorem parse_eq_ok_iff : parse text = .ok m ↔ m.WellFormed ∧ m.render = text := by
  constructor
  · intro h
    rw [parse] at h
    split at h
    · next hread =>
        cases h
        obtain ⟨hm, hchars⟩ := readChars?_sound hread
        exact ⟨hm, by rw [render, hchars, String.ofList_toList]⟩
    · cases h
  · rintro ⟨hm, rfl⟩
    exact parse_render hm

/-- A fault is laid on the whole text. -/
theorem parse_eq_error_iff {fault : Error} :
    parse text = .error fault ↔
      (∀ m : MethodType, m.WellFormed → m.render ≠ text) ∧ fault = .invalidDescriptor text := by
  cases h : parse text with
  | ok m =>
      obtain ⟨hm, hrender⟩ := parse_eq_ok_iff.mp h
      constructor
      · nofun
      · rintro ⟨hnone, -⟩
        exact absurd hrender (hnone m hm)
  | error left =>
      have hleft : left = .invalidDescriptor text := by
        rw [parse] at h
        split at h
        · cases h
        · cases h
          rfl
      constructor
      · rintro ⟨⟩
        refine ⟨fun m hm hrender => ?_, hleft⟩
        cases h.symm.trans (parse_eq_ok_iff.mpr ⟨hm, hrender⟩)
      · rintro ⟨-, rfl⟩
        rw [hleft]

end MethodType

end MethodSearch.Bytecode
