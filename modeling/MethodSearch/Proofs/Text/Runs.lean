import MethodSearch.Proofs.Text.Pieces

/-!
# Words

The words of a text are its longest runs without a separator. A text has one list of such runs. The words of two texts
with a gap between them stand one behind the other, and changing characters without touching the separators changes the
words in the same way. Capitals are such a change, as whether a character is blank does not depend on its case.
-/

namespace MethodSearch.Text

variable {sep : Char → Bool} {s gap word rest : List Char} {ws : List (List Char)} {c d : Char}

/-- The runs of a text: only separators stand between them, and none of them could be longer. -/
inductive Runs (sep : Char → Bool) : List Char → List (List Char) → Prop
  | gap {gap : List Char} : (∀ c ∈ gap, sep c = true) → Runs sep gap []
  | run {gap word rest : List Char} {ws : List (List Char)} : (∀ c ∈ gap, sep c = true) → word ≠ [] →
      (∀ c ∈ word, sep c = false) → (∀ c ∈ rest.head?, sep c = true) → Runs sep rest ws →
      Runs sep (gap ++ word ++ rest) (word :: ws)

theorem Runs.no_separator (h : Runs sep s ws) : ∀ word ∈ ws, word ≠ [] ∧ ∀ c ∈ word, sep c = false := by
  induction h with
  | gap _ => exact nofun
  | run _ hne hword _ _ ih => exact List.forall_mem_cons.mpr ⟨⟨hne, hword⟩, ih⟩

theorem Runs.separator (hd : sep d = true) (h : Runs sep s ws) : Runs sep (d :: s) ws := by
  cases h with
  | gap hgap => exact .gap (List.forall_mem_cons.mpr ⟨hd, hgap⟩)
  | run hgap hne hword hrest h => exact .run (List.forall_mem_cons.mpr ⟨hd, hgap⟩) hne hword hrest h

/-- A character in front of a text makes its first run longer, or a run of its own. -/
theorem Runs.exists_cons (hd : sep d = false) (h : Runs sep s ws) : ∃ ws', Runs sep (d :: s) ws' := by
  have hown : ∀ c ∈ [d], sep c = false := by simpa using hd
  have hnone : ∀ c ∈ ([] : List Char), sep c = true := nofun
  cases h with
  | gap hgap =>
      have hhead : ∀ c ∈ s.head?, sep c = true := fun c hc => hgap c (List.mem_of_mem_head? hc)
      exact ⟨[[d]], .run hnone (List.cons_ne_nil d []) hown hhead (.gap hgap)⟩
  | @run gap word rest ws hgap hne hword hrest h =>
      cases gap with
      | nil => exact ⟨(d :: word) :: ws, .run hnone (List.cons_ne_nil d word)
          (List.forall_mem_cons.mpr ⟨hd, hword⟩) hrest h⟩
      | cons e gap =>
          have hhead : ∀ c ∈ (e :: gap ++ word ++ rest).head?, sep c = true := by
            rintro c ⟨⟩
            exact hgap e List.mem_cons_self
          exact ⟨[d] :: word :: ws, .run hnone (List.cons_ne_nil d []) hown hhead
            (.run hgap hne hword hrest h)⟩

theorem exists_runs (sep : Char → Bool) (s : List Char) : ∃ ws, Runs sep s ws := by
  induction s with
  | nil => exact ⟨[], .gap nofun⟩
  | cons c s ih =>
      obtain ⟨ws, h⟩ := ih
      cases hc : sep c with
      | false => exact h.exists_cons hc
      | true => exact ⟨ws, h.separator hc⟩

/-! ## Words and gaps -/

/-- Words end at a separator. -/
theorem words_append_separator (hd : sep d = true) (s t : List Char) :
    words sep (s ++ d :: t) = words sep s ++ words sep t := by
  simp only [words, pieces_eq_splitOnP, List.splitOnP_append_cons s t hd, List.filter_append]

theorem words_gap (h : ∀ c ∈ gap, sep c = true) (s : List Char) : words sep (gap ++ s) = words sep s := by
  induction gap with
  | nil => rfl
  | cons c gap ih =>
      rw [List.forall_mem_cons] at h
      have hcut : words sep (c :: (gap ++ s)) = words sep (gap ++ s) := words_append_separator h.1 [] (gap ++ s)
      rw [List.cons_append, hcut, ih h.2]

theorem words_append (hne : gap ≠ []) (hgap : ∀ c ∈ gap, sep c = true) (s t : List Char) :
    words sep (s ++ gap ++ t) = words sep s ++ words sep t := by
  cases gap with
  | nil => exact absurd rfl hne
  | cons d gap =>
      rw [List.forall_mem_cons] at hgap
      rw [List.append_assoc, List.cons_append, words_append_separator hgap.1, words_gap hgap.2]

theorem words_of_no_separator (hne : word ≠ []) (hword : ∀ c ∈ word, sep c = false) : words sep word = [word] := by
  rw [words, pieces_eq_splitOnP, List.splitOnP_eq_singleton hword, List.filter_eq_self]
  simpa using hne

theorem words_run (hne : word ≠ []) (hword : ∀ c ∈ word, sep c = false) (hrest : ∀ c ∈ rest.head?, sep c = true) :
    words sep (word ++ rest) = word :: words sep rest := by
  cases rest with
  | nil =>
      rw [List.append_nil, words_of_no_separator hne hword]
      rfl
  | cons d rest =>
      have hd : sep d = true := hrest d rfl
      have hskip : words sep (d :: rest) = words sep rest := words_append_separator hd [] rest
      rw [words_append_separator hd, words_of_no_separator hne hword, hskip, List.singleton_append]

theorem Runs.eq_words (h : Runs sep s ws) : ws = words sep s := by
  induction h with
  | gap hgap =>
      have hnone := words_gap hgap []
      rw [List.append_nil] at hnone
      exact hnone.symm
  | run hgap hne hword hrest _ ih => rw [List.append_assoc, words_gap hgap, words_run hne hword hrest, ih]

/-- The words of a text are its only list of runs. -/
theorem runs_iff : Runs sep s ws ↔ ws = words sep s := by
  obtain ⟨found, h⟩ := exists_runs sep s
  constructor
  · exact Runs.eq_words
  · rintro rfl
    exact h.eq_words ▸ h

theorem words_no_separator (sep : Char → Bool) (s : List Char) :
    ∀ word ∈ words sep s, word ≠ [] ∧ ∀ c ∈ word, sep c = false :=
  (runs_iff.mpr rfl).no_separator

theorem pieces_map {f : Char → Char} (h : ∀ c, sep (f c) = sep c) (s : List Char) :
    pieces sep (s.map f) = (pieces sep s).map (List.map f) := by
  induction s with
  | nil => rfl
  | cons c s ih =>
      rw [List.map_cons, pieces, pieces, h c, ih]
      cases sep c with
      | true => rfl
      | false => cases pieces sep s <;> rfl

theorem words_map {f : Char → Char} (h : ∀ c, sep (f c) = sep c) (s : List Char) :
    words sep (s.map f) = (words sep s).map (List.map f) := by
  rw [words, pieces_map h, List.filter_map, words]
  congr 2
  funext p
  rw [Function.comp_apply, List.isEmpty_map]

/-! ## Capitals -/

/-- The small letters of ASCII have their capitals thirty-two places before them. -/
theorem toUpper_cases (c : Char) :
    c.toUpper = c ∨ 97 ≤ c.toNat ∧ c.toNat ≤ 122 ∧ c.toUpper.toNat + 32 = c.toNat := by
  delta Char.toUpper
  split
  · next h =>
      have hlow : 97 ≤ c.toNat := UInt32.le_iff_toNat_le.mp h.1
      have hhigh : c.toNat ≤ 122 := UInt32.le_iff_toNat_le.mp h.2
      refine .inr ⟨hlow, hhigh, ?_⟩
      rw [Char.toNat_mk, UInt32.toNat_add, Char.toNat_val]
      have hback : ('A'.val - 'a'.val).toNat = 2 ^ 32 - 32 := rfl
      omega
  · exact .inl rfl

/-- Only capitals are the capitals of other characters. -/
theorem eq_of_toUpper (hd : d.toNat < 65) (h : c.toUpper = d) : c = d := by
  rcases toUpper_cases c with hc | ⟨hlow, -, hc⟩
  · rw [← hc, h]
  · rw [h] at hc
    omega

theorem toUpper_toUpper (c : Char) : c.toUpper.toUpper = c.toUpper := by
  rcases toUpper_cases c.toUpper with h | ⟨hlow, -, -⟩
  · exact h
  · rcases toUpper_cases c with h | ⟨-, hhigh, h⟩
    · rw [h, h]
    · omega

theorem isBlank_toUpper (c : Char) : isBlank c.toUpper = isBlank c := by
  rcases toUpper_cases c with h | ⟨hlow, hhigh, h⟩
  · rw [h]
  · have hletter {d : Char} (hd : 65 ≤ d.toNat) (hd' : d.toNat ≤ 122) : isBlank d = false := by
      simp only [isBlank, Bool.or_eq_false_iff, Bool.and_eq_false_iff, decide_eq_false_iff_not, beq_eq_false_iff_ne]
      omega
    rw [hletter (by omega) hhigh, hletter (by omega) (by omega)]

end MethodSearch.Text
