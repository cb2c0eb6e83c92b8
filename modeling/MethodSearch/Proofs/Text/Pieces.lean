import Mathlib.Data.List.TakeWhile
import MethodSearch.Text.Blank

/-!
# Pieces and blanks

Pieces that hold no separator, joined by one, are cut into the same pieces. What is written piece by piece is read back
piece by piece. Trimming takes the blanks off both ends of a text and leaves what neither begins nor ends with one, and
such texts written with commas between them are cut into the same texts.
-/

namespace MethodSearch.Text

variable {sep : Char → Bool} {p : List Char} {ps : List (List Char)} {d : Char}

theorem pieces_eq_splitOnP (sep : Char → Bool) (s : List Char) : pieces sep s = s.splitOnP sep := by
  induction s with
  | nil => rfl
  | cons c s ih =>
      rw [pieces, List.splitOnP_cons_eq_if_modifyHead, ih]
      cases h : s.splitOnP sep with
      | nil => exact absurd h (List.splitOnP_ne_nil sep s)
      | cons p ps => rfl

/-- Of the separators only the one that joins the pieces is written. -/
theorem pieces_intercalate (hne : ps ≠ []) (hps : ∀ p ∈ ps, ∀ c ∈ p, sep c = false) (hd : sep d = true) :
    pieces sep ([d].intercalate ps) = ps := by
  rw [pieces_eq_splitOnP]
  induction ps with
  | nil => exact absurd rfl hne
  | cons p ps ih =>
      rw [List.forall_mem_cons] at hps
      cases ps with
      | nil => rw [List.intercalate_singleton, List.splitOnP_eq_singleton hps.1]
      | cons q qs =>
          rw [List.intercalate_cons_cons, List.append_assoc, List.singleton_append,
            List.splitOnP_append_cons_of_forall_mem hps.1 d hd, ih (List.cons_ne_nil q qs) hps.2]

theorem words_intercalate (hps : ∀ p ∈ ps, p ≠ [] ∧ ∀ c ∈ p, sep c = false) (hd : sep d = true) :
    words sep ([d].intercalate ps) = ps := by
  cases ps with
  | nil => rfl
  | cons p ps =>
      rw [words, pieces_intercalate (List.cons_ne_nil p ps) (fun q hq => (hps q hq).2) hd, List.filter_eq_self]
      intro q hq
      simp [(hps q hq).1]

/-- In any monad in which reading may fail. -/
theorem mapM_map {m : Type → Type} [Monad m] [LawfulMonad m] {α β : Type} {read : β → m α} {write : α → β}
    {as : List α} (h : ∀ a ∈ as, read (write a) = pure a) : (as.map write).mapM read = pure as := by
  induction as with
  | nil => rfl
  | cons a as ih =>
      rw [List.forall_mem_cons] at h
      rw [List.map_cons, List.mapM_cons, h.1, pure_bind, ih h.2, pure_bind]

/-! ## Trimming -/

variable {s t before after : List Char}

/-- Neither end of a text is blank. -/
structure Trimmed (s : List Char) : Prop where
  first : ∀ c ∈ s.head?, isBlank c = false
  last : ∀ c ∈ s.getLast?, isBlank c = false

theorem no_blank_of_any (h : s.any isBlank = false) : ∀ c ∈ s, isBlank c = false := by
  simpa using h

theorem trimmed_of_no_blank (h : ∀ c ∈ s, isBlank c = false) : Trimmed s :=
  ⟨fun c hc => h c (List.mem_of_mem_head? hc), fun c hc => h c (List.mem_of_mem_getLast? hc)⟩

theorem dropWhile_blanks (hs : ∀ c ∈ s, isBlank c = true) (ht : ∀ c ∈ t.head?, isBlank c = false) :
    (s ++ t).dropWhile isBlank = t := by
  rw [List.dropWhile_append_of_pos hs]
  cases t with
  | nil => rfl
  | cons c t => simp [ht c rfl]

theorem head?_dropWhile_blank (s : List Char) : ∀ c ∈ (s.dropWhile isBlank).head?, isBlank c = false := by
  intro c hc
  have h := List.head?_dropWhile_not isBlank s
  rwa [hc] at h

theorem trimChars_padded (hbefore : ∀ c ∈ before, isBlank c = true) (hafter : ∀ c ∈ after, isBlank c = true)
    (hs : Trimmed s) : trimChars (before ++ s ++ after) = s := by
  have hback : ∀ c ∈ after.reverse, isBlank c = true := by simpa using hafter
  have hlast : ∀ c ∈ s.reverse.head?, isBlank c = false := by simpa using hs.last
  have hfront : ((before ++ s ++ after).dropWhile isBlank).reverse.dropWhile isBlank = s.reverse := by
    cases s with
    | nil =>
        have hblank : ∀ c ∈ before ++ [] ++ after, isBlank c = true := by
          intro c hc
          simp only [List.append_nil, List.mem_append] at hc
          exact hc.elim (hbefore c) (hafter c)
        rw [List.dropWhile_eq_nil_iff.mpr hblank]
        rfl
    | cons c s =>
        rw [List.append_assoc, dropWhile_blanks hbefore (by simpa using hs.first), List.reverse_append,
          dropWhile_blanks hback hlast]
  rw [trimChars, hfront, List.reverse_reverse]

theorem exists_padded (s : List Char) :
    ∃ before after, (∀ c ∈ before, isBlank c = true) ∧ (∀ c ∈ after, isBlank c = true) ∧ Trimmed (trimChars s) ∧
      s = before ++ trimChars s ++ after := by
  -- The back is the front of the reversed text.
  have hback : s.dropWhile isBlank = trimChars s ++ ((s.dropWhile isBlank).reverse.takeWhile isBlank).reverse := by
    rw [trimChars, ← List.reverse_append, List.takeWhile_append_dropWhile, List.reverse_reverse]
  have hfirst : ∀ c ∈ (trimChars s).head?, isBlank c = false := by
    intro c hc
    apply head?_dropWhile_blank s
    rw [hback, List.head?_append, hc]
    rfl
  have hlast : ∀ c ∈ (trimChars s).getLast?, isBlank c = false := by
    rw [trimChars, List.getLast?_reverse]
    exact head?_dropWhile_blank _
  refine ⟨s.takeWhile isBlank, ((s.dropWhile isBlank).reverse.takeWhile isBlank).reverse, ?_, ?_, ⟨hfirst, hlast⟩, ?_⟩
  · exact fun c hc => List.mem_takeWhile_imp hc
  · exact fun c hc => List.mem_takeWhile_imp (List.mem_reverse.mp hc)
  · rw [List.append_assoc, ← hback, List.takeWhile_append_dropWhile]

theorem trimChars_of_trimmed (h : Trimmed s) : trimChars s = s := by
  have hnone : ∀ c ∈ ([] : List Char), isBlank c = true := nofun
  simpa using trimChars_padded hnone hnone h

theorem trimChars_of_no_blank (h : ∀ c ∈ s, isBlank c = false) : trimChars s = s :=
  trimChars_of_trimmed (trimmed_of_no_blank h)

/-- Trimming keeps what is not blank. -/
theorem mem_trimChars {c : Char} (hc : c ∈ s) (hblank : isBlank c = false) : c ∈ trimChars s := by
  obtain ⟨before, after, hbefore, hafter, -, hs⟩ := exists_padded s
  have hnot {part : List Char} (hpart : ∀ c ∈ part, isBlank c = true) : c ∉ part := fun hc => by
    cases hblank.symm.trans (hpart c hc)
  rw [hs, List.mem_append, List.mem_append] at hc
  rcases hc with (hc | hc) | hc
  · exact absurd hc (hnot hbefore)
  · exact hc
  · exact absurd hc (hnot hafter)

theorem trim_isEmpty_of_not_blank {s : String} (h : ∃ c ∈ s.toList, isBlank c = false) : (trim s).isEmpty = false := by
  obtain ⟨c, hc, hblank⟩ := h
  rw [← Bool.not_eq_true, String.isEmpty_iff, trim]
  intro hempty
  have hmem := mem_trimChars hc hblank
  rw [String.ofList_eq_empty_iff] at hempty
  rw [hempty] at hmem
  cases hmem

theorem trim_isEmpty_of_blank {s : String} (h : ∀ c ∈ s.toList, isBlank c = true) : (trim s).isEmpty = true := by
  rw [String.isEmpty_iff, trim, trimChars, List.dropWhile_eq_nil_iff.mpr h]
  rfl

theorem trim_isEmpty_iff {s : String} : (trim s).isEmpty = true ↔ ¬∃ c ∈ s.toList, isBlank c = false := by
  constructor
  · intro hempty h
    cases hempty.symm.trans (trim_isEmpty_of_not_blank h)
  · intro h
    refine trim_isEmpty_of_blank fun c hc => ?_
    rw [← Bool.not_eq_false]
    exact fun hblank => h ⟨c, hc, hblank⟩

/-- A text that stands between commas as it is. -/
structure IsItem (s : String) : Prop where
  ne_empty : s ≠ ""
  no_comma : ',' ∉ s.toList
  trimmed : Trimmed s.toList

theorem IsItem.no_separator {s : String} (h : IsItem s) : ∀ c ∈ s.toList, (c == ',') = false := by
  intro c hc
  rw [beq_eq_false_iff_ne]
  rintro rfl
  exact h.no_comma hc

theorem commaItems_intercalate {items : List String} (h : ∀ s ∈ items, IsItem s) :
    commaItems (",".intercalate items) = items := by
  cases items with
  | nil => rfl
  | cons s items =>
      have hpieces : pieces (· == ',') (",".intercalate (s :: items)).toList = (s :: items).map String.toList := by
        rw [String.toList_intercalate]
        refine pieces_intercalate (by simp) ?_ rfl
        intro p hp
        obtain ⟨t, ht, rfl⟩ := List.mem_map.mp hp
        exact (h t ht).no_separator
      have htrim : ((s :: items).map String.toList).map trimChars = (s :: items).map String.toList := by
        rw [List.map_map]
        exact List.map_congr_left fun t ht => trimChars_of_trimmed (h t ht).trimmed
      have hkept : ((s :: items).map String.toList).filter (fun p => !p.isEmpty) = (s :: items).map String.toList := by
        rw [List.filter_eq_self]
        intro p hp
        obtain ⟨t, ht, rfl⟩ := List.mem_map.mp hp
        simpa using (h t ht).ne_empty
      rw [commaItems, hpieces, htrim, hkept, List.map_map]
      simp [Function.comp_def]

end MethodSearch.Text
