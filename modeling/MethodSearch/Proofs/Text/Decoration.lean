import MethodSearch.Proofs.Text.Digits
import MethodSearch.Text.Count
import MethodSearch.Text.Duration
import MethodSearch.Text.Style

/-!
# Styles as decoration

A text that is drawn with styles holds sequences that start and end them. It is the text drawn without styles once these
sequences are taken out. Everything that texts are put together with keeps this.
-/

namespace MethodSearch.Text

variable {s t : String} {c : Char} {cs ps rest : List Char}

def EscapeFree (s : String) : Prop :=
  escape ∉ s.toList

instance (s : String) : Decidable (EscapeFree s) :=
  inferInstanceAs (Decidable (escape ∉ s.toList))

namespace EscapeFree

theorem append (hs : EscapeFree s) (ht : EscapeFree t) : EscapeFree (s ++ t) := by
  simpa [EscapeFree] using ⟨hs, ht⟩

theorem ofList (h : escape ∉ cs) : EscapeFree (String.ofList cs) := by
  rwa [EscapeFree, String.toList_ofList]

theorem replicate (hc : c ≠ escape) (n : Nat) : EscapeFree (String.ofList (List.replicate n c)) :=
  ofList fun h => hc (List.eq_of_mem_replicate h).symm

theorem spaces (n : Nat) : EscapeFree (spaces n) :=
  replicate (by decide) n

theorem padRight (width : Nat) (hs : EscapeFree s) : EscapeFree (padRight width s) :=
  hs.append (spaces _)

theorem centre (width : Nat) (hs : EscapeFree s) : EscapeFree (centre width s) :=
  ((spaces _).append hs).append (spaces _)

theorem repr (n : Nat) : EscapeFree (Nat.repr n) := by
  have hdigit : ∀ d < 10, escape ≠ d.digitChar := by decide
  apply ofList
  intro h
  obtain ⟨d, hd, hc⟩ := exists_digit_of_mem_toDigits (by decide) h
  exact hdigit d hd hc

theorem ite {p : Prop} [Decidable p] (hs : EscapeFree s) (ht : EscapeFree t) : EscapeFree (if p then s else t) := by
  by_cases h : p
  · rwa [if_pos h]
  · rwa [if_neg h]

theorem placesText (places units : Nat) : EscapeFree (placesText places units) := by
  have hdecimals : escape ∉ (Nat.repr (units % Nat.pow 10 places)).toList := repr _
  have hpoint : EscapeFree "." := by decide
  apply (repr _).append
  apply ite (by decide)
  apply hpoint.append
  apply ofList
  rw [List.mem_append, not_or]
  exact ⟨fun h => absurd (List.eq_of_mem_replicate h) (by decide), hdecimals⟩

theorem fixed (places : Nat) (x : Float) : EscapeFree (fixed places x) := by
  have hmark : EscapeFree (if Nat.pow 2 63 ≤ x.toBits.toNat then "-" else "") := ite (by decide) (by decide)
  apply ite (by decide)
  apply ite
  · exact hmark.append (by decide)
  · exact hmark.append (placesText _ _)

end EscapeFree

/-! ## Taking out styles -/

/-- What stands between the opening of a style and its end. -/
def isParameter (c : Char) : Bool :=
  c.isDigit || c == ';'

/-- What is behind the sequence for a style that a text begins with. -/
def afterStyle? : List Char → Option (List Char)
  | '\x1b' :: '[' :: rest => match rest.dropWhile isParameter with
    | 'm' :: rest => some rest
    | _ => none
  | _ => none

theorem length_afterStyle? (h : afterStyle? cs = some rest) : rest.length < cs.length := by
  unfold afterStyle? at h
  split at h
  · next tail =>
      split at h
      · next hdrop =>
          cases h
          have hle := (List.dropWhile_suffix isParameter (l := tail)).length_le
          rw [hdrop, List.length_cons] at hle
          simp only [List.length_cons]
          omega
      · cases h
  · cases h

/-- Deletes every sequence for a style, from left to right. -/
def dropStyles : List Char → List Char
  | [] => []
  | c :: cs => match _h : afterStyle? (c :: cs) with
    | some rest => dropStyles rest
    | none => c :: dropStyles cs
termination_by cs => cs.length
decreasing_by
  · exact length_afterStyle? _h
  · simp

def withoutStyles (s : String) : String :=
  String.ofList (dropStyles s.toList)

theorem dropStyles_of_some (h : afterStyle? (c :: cs) = some rest) : dropStyles (c :: cs) = dropStyles rest := by
  rw [dropStyles]
  split
  · next hsome =>
      rw [h] at hsome
      cases hsome
      rfl
  · next hnone =>
      rw [h] at hnone
      cases hnone

theorem dropStyles_of_none (h : afterStyle? (c :: cs) = none) : dropStyles (c :: cs) = c :: dropStyles cs := by
  rw [dropStyles]
  split
  · next hsome =>
      rw [h] at hsome
      cases hsome
  · rfl

theorem dropStyles_sequence (h : ∀ c ∈ ps, isParameter c = true) (rest : List Char) :
    dropStyles (escape :: '[' :: (ps ++ 'm' :: rest)) = dropStyles rest := by
  apply dropStyles_of_some
  simp [afterStyle?, escape, List.dropWhile_append_of_pos h, isParameter]

theorem dropStyles_cons (hc : c ≠ escape) (cs : List Char) : dropStyles (c :: cs) = c :: dropStyles cs := by
  apply dropStyles_of_none
  unfold afterStyle?
  split
  · next heq =>
      cases heq
      exact absurd rfl hc
  · rfl

theorem dropStyles_append (h : escape ∉ cs) (rest : List Char) : dropStyles (cs ++ rest) = cs ++ dropStyles rest := by
  induction cs with
  | nil => rfl
  | cons c cs ih =>
      rw [List.mem_cons, not_or] at h
      rw [List.cons_append, dropStyles_cons (Ne.symm h.1), ih h.2, List.cons_append]

theorem isParameter_codes (ns : List Nat) : ∀ c ∈ (";".intercalate (ns.map toString)).toList, isParameter c = true := by
  have hdigit : ∀ d < 10, isParameter d.digitChar = true := by decide
  have hnumber (n : Nat) : ∀ c ∈ (toString n).toList, isParameter c = true := by
    intro c hc
    have hc : c ∈ Nat.toDigits 10 n := by simpa using hc
    obtain ⟨d, hd, rfl⟩ := exists_digit_of_mem_toDigits (by decide) hc
    exact hdigit d hd
  induction ns with
  | nil => simp
  | cons n ns ih =>
      cases ns with
      | nil => simpa using hnumber n
      | cons k ns =>
          intro c hc
          simp only [List.map_cons, String.intercalate_cons_cons, String.toList_append, List.mem_append] at hc
          rcases hc with (hc | hc) | hc
          · exact hnumber n c hc
          · rw [List.mem_singleton.mp hc]
            rfl
          · exact ih c hc

theorem dropStyles_start (style : Style) (rest : List Char) : dropStyles (style.start ++ rest) = dropStyles rest := by
  simpa [Style.start] using dropStyles_sequence (isParameter_codes style.codes) rest

theorem dropStyles_reset (rest : List Char) : dropStyles (reset ++ rest) = dropStyles rest := by
  have hzero : ∀ c ∈ ['0'], isParameter c = true := List.forall_mem_singleton.mpr rfl
  exact dropStyles_sequence hzero rest

theorem resume_of_escapeFree (start : List Char) (h : escape ∉ cs) : resume start cs = cs := by
  induction cs with
  | nil => rfl
  | cons c cs ih =>
      rw [List.mem_cons, not_or] at h
      unfold resume
      split
      · next heq =>
          cases heq
          exact absurd rfl h.1
      · next heq =>
          cases heq
          rw [ih h.2]
      · next heq => cases heq

/-! ## Drawn texts -/

/-- Styles are no more than decoration: without them there are no escapes, and it does not matter whether the terminal
shows styles. Where it shows none they leave no trace, and where it does they can be taken out again. -/
structure OnlyDecorates (draw : Look → String) : Prop where
  escape_free : ∀ shown, EscapeFree (draw ⟨false, shown⟩)
  unstyled : ∀ shown shown', draw ⟨false, shown⟩ = draw ⟨false, shown'⟩
  hidden : ∀ shown, draw ⟨true, false⟩ = draw ⟨false, shown⟩
  stripped : ∀ shown, withoutStyles (draw ⟨true, true⟩) = draw ⟨false, shown⟩

/-- A piece of a text that styles only decorate, whatever text comes behind it. -/
structure Piece (draw : Look → String) : Prop where
  escape_free : EscapeFree (draw ⟨false, false⟩)
  unstyled : draw ⟨false, true⟩ = draw ⟨false, false⟩
  hidden : draw ⟨true, false⟩ = draw ⟨false, false⟩
  stripped : ∀ rest, dropStyles ((draw ⟨true, true⟩).toList ++ rest) = (draw ⟨false, false⟩).toList ++ dropStyles rest

namespace Piece

variable {draw draw' : Look → String}

theorem onlyDecorates (h : Piece draw) : OnlyDecorates draw := by
  have hplain : ∀ shown, draw ⟨false, shown⟩ = draw ⟨false, false⟩ := by
    intro shown
    cases shown with
    | true => exact h.unstyled
    | false => rfl
  have hstripped := h.stripped []
  simp only [List.append_nil, dropStyles] at hstripped
  refine ⟨?_, ?_, ?_, ?_⟩
  · exact fun shown => hplain shown ▸ h.escape_free
  · exact fun shown shown' => (hplain shown).trans (hplain shown').symm
  · exact fun shown => h.hidden.trans (hplain shown).symm
  · intro shown
    rw [withoutStyles, hstripped, String.ofList_toList, hplain shown]

theorem text (h : EscapeFree s) : Piece fun _ => s :=
  ⟨h, rfl, rfl, dropStyles_append h⟩

theorem paint (style : Style) (h : EscapeFree s) : Piece fun look => look.paint style s := by
  have hplain (shown : Bool) : Look.paint ⟨false, shown⟩ style s = s := rfl
  have hhidden : Look.paint ⟨true, false⟩ style s = s := rfl
  refine ⟨h, rfl, hhidden, fun rest => ?_⟩
  rw [hplain, Look.paint, Style.paint]
  split
  · rw [String.toList_ofList, resume_of_escapeFree _ h, List.append_assoc, List.append_assoc, dropStyles_start,
      dropStyles_append h, dropStyles_reset]
  · exact dropStyles_append h rest

theorem append (h : Piece draw) (h' : Piece draw') : Piece fun look => draw look ++ draw' look := by
  refine ⟨h.escape_free.append h'.escape_free, ?_, ?_, ?_⟩
  · rw [h.unstyled, h'.unstyled]
  · rw [h.hidden, h'.hidden]
  · intro rest
    rw [String.toList_append, String.toList_append, List.append_assoc, List.append_assoc, h.stripped, h'.stripped]

theorem appendText (h : Piece draw) (hs : EscapeFree s) : Piece fun look => draw look ++ s :=
  h.append (text hs)

theorem ite {p : Prop} [Decidable p] (h : Piece draw) (h' : Piece draw') :
    Piece fun look => if p then draw look else draw' look := by
  by_cases hp : p
  · simpa only [if_pos hp] using h
  · simpa only [if_neg hp] using h'

theorem join {α : Type} {as : List α} {line : Look → α → String} (h : ∀ a ∈ as, Piece fun look => line look a) :
    Piece fun look => String.join (as.map (line look)) := by
  induction as with
  | nil => exact text (by decide)
  | cons a as ih =>
      rw [List.forall_mem_cons] at h
      simp only [List.map_cons, String.join_cons]
      exact h.1.append (ih h.2)

theorem intercalate {draws : List (Look → String)} (hs : EscapeFree s) (h : ∀ draw ∈ draws, Piece draw) :
    Piece fun look => s.intercalate (draws.map (· look)) := by
  induction draws with
  | nil => exact text (by decide)
  | cons draw draws ih =>
      rw [List.forall_mem_cons] at h
      cases draws with
      | nil => simpa using h.1
      | cons draw' draws =>
          simp only [List.map_cons, String.intercalate_cons_cons]
          exact (h.1.appendText hs).append (ih h.2)

end Piece

end MethodSearch.Text
