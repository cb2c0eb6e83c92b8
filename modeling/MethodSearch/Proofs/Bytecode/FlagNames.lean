import MethodSearch.Bytecode.Access
import MethodSearch.Proofs.Text.Runs

/-!
# Names of flags

What a keyword denotes: a name of a flag in any case, with or without the mark `ACC_` before it, and blanks around it.
A keyword is read as the flag that it denotes, and as nothing if it denotes none.
-/

namespace MethodSearch.Bytecode.Flag

variable {f : Flag} {name keyword : String} {word mark : List Char}

/-- The names in upper case. Two flags have a second one. -/
def names : Flag → List String
  | .isStrict => ["STRICT", "STRICTFP"]
  | .isVarargs => ["VARARGS", "VARARG"]
  | f => [f.name]

/-- A word is a name of the flag in any case, or such a name behind one mark. -/
inductive Spells (f : Flag) : List Char → Prop
  | bare {word : List Char} {name : String} : name ∈ f.names → word.map Char.toUpper = name.toList → Spells f word
  | marked {mark word : List Char} {name : String} : mark.map Char.toUpper = "ACC_".toList → name ∈ f.names →
      word.map Char.toUpper = name.toList → Spells f (mark ++ word)

/-- A keyword spells the flag between blanks. -/
inductive Denotes (keyword : String) (f : Flag) : Prop
  | between {before word after : List Char} : keyword.toList = before ++ word ++ after →
      (∀ c ∈ before, Text.isBlank c = true) → (∀ c ∈ after, Text.isBlank c = true) → Spells f word → Denotes keyword f

theorem mem_all (f : Flag) : f ∈ all := by
  cases f <;> decide

theorem name_mem_names (f : Flag) : f.name ∈ f.names := by
  cases f <;> simp [names, name]

theorem ofName?_names : ∀ f ∈ all, ∀ name ∈ f.names, ofName? name = some f := by
  decide +kernel

theorem ofName?_eq_some_iff : ofName? name = some f ↔ name ∈ f.names := by
  constructor
  · intro h
    rw [ofName?, Option.or_eq_some_iff] at h
    rcases h with h | ⟨-, h⟩
    · rw [alias?.eq_def] at h
      split at h
      · cases h
        simp [names]
      · cases h
        simp [names]
      · cases h
    · have hname : f.name = name := by simpa using List.find?_some h
      rw [← hname]
      exact name_mem_names f
  · exact ofName?_names f (mem_all f) name

theorem dropMark_mark (word : List Char) : dropMark ("ACC_".toList ++ word) = word :=
  rfl

theorem dropMark_cases (word : List Char) : dropMark word = word ∨ word = "ACC_".toList ++ dropMark word := by
  rw [dropMark.eq_def]
  split
  · exact .inr rfl
  · exact .inl rfl

/-- No name begins with the mark. -/
theorem dropMark_names : ∀ f ∈ all, ∀ name ∈ f.names, dropMark name.toList = name.toList := by
  decide +kernel

theorem dropMark_eq_iff (h : name ∈ f.names) :
    dropMark word = name.toList ↔ word = name.toList ∨ word = "ACC_".toList ++ name.toList := by
  constructor
  · intro hword
    rw [← hword]
    exact (dropMark_cases word).imp Eq.symm id
  · rintro (rfl | rfl)
    · exact dropMark_names f (mem_all f) name h
    · exact dropMark_mark name.toList

theorem spells_iff : Spells f word ↔ ∃ name ∈ f.names, dropMark (word.map Char.toUpper) = name.toList := by
  constructor
  · rintro (⟨hname, hword⟩ | ⟨hmark, hname, hword⟩)
    · exact ⟨_, hname, (dropMark_eq_iff hname).mpr (.inl hword)⟩
    · refine ⟨_, hname, (dropMark_eq_iff hname).mpr (.inr ?_)⟩
      rw [List.map_append, hmark, hword]
  · rintro ⟨name, hname, h⟩
    rcases (dropMark_eq_iff hname).mp h with hword | hword
    · exact .bare hname hword
    · obtain ⟨mark, rest, rfl, hmark, hrest⟩ := List.map_eq_append_iff.mp hword
      exact .marked hmark hname hrest

theorem any_blank_names : ∀ f ∈ all, ∀ name ∈ f.names, name.toList.any Text.isBlank = false := by
  decide +kernel

/-- Words in another case are as free of blanks. -/
theorem no_blank_of_toUpper {name : List Char} (hname : ∀ c ∈ name, Text.isBlank c = false)
    (hword : word.map Char.toUpper = name) : ∀ c ∈ word, Text.isBlank c = false := by
  intro c hc
  rw [← Text.isBlank_toUpper]
  exact hname _ (hword ▸ List.mem_map_of_mem hc)

theorem Spells.trimmed (h : Spells f word) : Text.Trimmed word := by
  apply Text.trimmed_of_no_blank
  have hnames {name : String} (hname : name ∈ f.names) : ∀ c ∈ name.toList, Text.isBlank c = false :=
    Text.no_blank_of_any (any_blank_names f (mem_all f) name hname)
  have hmarks : ∀ c ∈ "ACC_".toList, Text.isBlank c = false := Text.no_blank_of_any (by decide)
  cases h with
  | bare hname hword => exact no_blank_of_toUpper (hnames hname) hword
  | marked hmark hname hword =>
      intro c hc
      rcases List.mem_append.mp hc with hc | hc
      · exact no_blank_of_toUpper hmarks hmark c hc
      · exact no_blank_of_toUpper (hnames hname) hword c hc

/-! ## Keywords -/

theorem denotes_iff : Denotes keyword f ↔ Spells f (Text.trimChars keyword.toList) := by
  constructor
  · rintro ⟨hkeyword, hbefore, hafter, hword⟩
    rw [hkeyword, Text.trimChars_padded hbefore hafter hword.trimmed]
    exact hword
  · intro h
    obtain ⟨before, after, hbefore, hafter, -, hkeyword⟩ := Text.exists_padded keyword.toList
    exact .between hkeyword hbefore hafter h

theorem ofKeyword?_eq_some_iff : ofKeyword? keyword = some f ↔ Denotes keyword f := by
  have hupper : (Text.trim keyword).toUpper.toList = (Text.trimChars keyword.toList).map Char.toUpper := by
    rw [String.toUpper, String.toList_map, Text.trim, String.toList_ofList]
  rw [denotes_iff, spells_iff, ofKeyword?, hupper, ofName?_eq_some_iff]
  constructor
  · intro h
    exact ⟨_, h, String.toList_ofList.symm⟩
  · rintro ⟨name, hname, h⟩
    rwa [h, String.ofList_toList]

theorem ofKeyword?_eq_none_iff : ofKeyword? keyword = none ↔ ¬∃ f, Denotes keyword f := by
  simp only [← ofKeyword?_eq_some_iff, ← Option.ne_none_iff_exists', not_not]

theorem denotes_congr {other : String} (h : ofKeyword? keyword = ofKeyword? other) :
    Denotes keyword f ↔ Denotes other f := by
  rw [← ofKeyword?_eq_some_iff, h, ofKeyword?_eq_some_iff]

theorem keyword_toList (f : Flag) : f.keyword.toList = f.name.toList.map Char.toLower :=
  String.toList_map

theorem toUpper_toLower_name : ∀ f ∈ all, (f.name.toList.map Char.toLower).map Char.toUpper = f.name.toList := by
  decide +kernel

theorem ofKeyword?_keyword (f : Flag) : ofKeyword? f.keyword = some f := by
  have hword : f.keyword.toList = [] ++ f.name.toList.map Char.toLower ++ [] := by
    rw [keyword_toList, List.nil_append, List.append_nil]
  have hspells : Spells f (f.name.toList.map Char.toLower) :=
    .bare (name_mem_names f) (toUpper_toLower_name f (mem_all f))
  exact ofKeyword?_eq_some_iff.mpr (.between hword (by simp) (by simp) hspells)

end MethodSearch.Bytecode.Flag
