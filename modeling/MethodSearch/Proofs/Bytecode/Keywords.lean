import MethodSearch.Bytecode.Access
import MethodSearch.Proofs.Text.FirstFault

/-!
# Lists of keywords

Keywords are read as the union of the flags they name. The first one that names none is at fault.
-/

namespace MethodSearch.Bytecode.Access

variable {keyword : String} {keywords : List String} {a : Access} {e : Error}

/-- The mask of some flags. -/
def ofFlags (flags : List Flag) : Access :=
  flags.foldl (fun a f => a.union ⟨f.mask⟩) empty

theorem ofKeyword_eq_error_iff (keyword : String) (e : Error) :
    ofKeyword keyword = .error e ↔
      ∃ k, some keyword = some k ∧ Flag.ofKeyword? k = none ∧ .unknownAccessFlag k = e := by
  rw [ofKeyword]
  cases h : Flag.ofKeyword? keyword <;> simp [h]

/-- Reading all keywords comes first, and uniting their flags second. -/
theorem ofKeywords_eq (keywords : List String) :
    ofKeywords keywords = (keywords.mapM ofKeyword).map (List.foldl union empty) := by
  rw [ofKeywords]
  generalize empty = a
  induction keywords generalizing a with
  | nil => rfl
  | cons k keywords ih =>
      rw [List.foldlM_cons, List.mapM_cons]
      cases ofKeyword k with
      | error e => rfl
      | ok b =>
          show keywords.foldlM _ (a.union b) = _
          rw [ih]
          cases keywords.mapM ofKeyword <;> rfl

theorem mapM_ofKeyword (h : ∀ k ∈ keywords, Flag.ofKeyword? k ≠ none) :
    keywords.mapM ofKeyword = .ok ((keywords.filterMap Flag.ofKeyword?).map fun f => ⟨f.mask⟩) := by
  induction keywords with
  | nil => rfl
  | cons k keywords ih =>
      rw [List.forall_mem_cons] at h
      obtain ⟨f, hf⟩ := Option.ne_none_iff_exists'.mp h.1
      have hread : ofKeyword k = .ok ⟨f.mask⟩ := by rw [ofKeyword, hf]
      rw [List.mapM_cons, hread, ih h.2, List.filterMap_cons_some hf, List.map_cons]
      rfl

theorem ofKeywords_eq_ok_iff :
    ofKeywords keywords = .ok a ↔
      (∀ k ∈ keywords, Flag.ofKeyword? k ≠ none) ∧ a = .ofFlags (keywords.filterMap Flag.ofKeyword?) := by
  have hread (h : ∀ k ∈ keywords, Flag.ofKeyword? k ≠ none) :
      ofKeywords keywords = .ok (.ofFlags (keywords.filterMap Flag.ofKeyword?)) := by
    rw [ofKeywords_eq, mapM_ofKeyword h, Except.map, List.foldl_map]
    rfl
  constructor
  · intro h
    rw [ofKeywords_eq] at h
    obtain ⟨as, has, -⟩ := Except.map_eq_ok_iff.mp h
    have hknown := (Except.exists_mapM_eq_ok_iff_part ofKeyword_eq_error_iff).mp ⟨as, has⟩
    rw [List.filterMap_some] at hknown
    rw [← ofKeywords_eq] at h
    exact ⟨hknown, Except.ok.inj (h.symm.trans (hread hknown))⟩
  · rintro ⟨hknown, rfl⟩
    exact hread hknown

theorem ofKeywords_eq_error_iff :
    ofKeywords keywords = .error e ↔
      ∃ k, keywords.IsFirst (fun k => Flag.ofKeyword? k = none) k ∧ .unknownAccessFlag k = e := by
  rw [ofKeywords_eq, Except.map_eq_error_iff, Except.mapM_eq_error_iff_part ofKeyword_eq_error_iff,
    List.filterMap_some]

end MethodSearch.Bytecode.Access
