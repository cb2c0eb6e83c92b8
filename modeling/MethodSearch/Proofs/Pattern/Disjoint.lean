import Mathlib.Algebra.BigOperators.Group.Finset.Basic
import Mathlib.Data.Finset.Sort
import Mathlib.Order.Interval.Finset.Nat
import MethodSearch.Proofs.Pattern.Packing

/-!
# Disjoint occurrences

Occurrences of a pattern are disjoint when no opcode belongs to two of them. Taken in their order they are a packing,
so that a body has no more of them than its windows count.
-/

namespace MethodSearch

open Bytecode

/-- The indices that an occurrence covers. -/
def block (pattern : List Opcode) (a : Nat) : Finset Nat :=
  Finset.Ico a (a + pattern.length)

/-- Indices at which the opcodes hold the pattern, whose blocks have no index in common. -/
structure DisjointFamily (codes pattern : List Opcode) (starts : Finset Nat) : Prop where
  occurs : ∀ a ∈ starts, (codes.drop a).take pattern.length = pattern
  disjoint : (starts : Set Nat).PairwiseDisjoint (block pattern)

variable {codes pattern : List Opcode} {starts : Finset Nat} {a b : Nat}

theorem mem_block {k : Nat} : k ∈ block pattern a ↔ a ≤ k ∧ k < a + pattern.length :=
  Finset.mem_Ico

theorem card_block (pattern : List Opcode) (a : Nat) : (block pattern a).card = pattern.length := by
  rw [block, Nat.card_Ico, Nat.add_sub_cancel_left]

theorem disjoint_block (h : a + pattern.length ≤ b) : Disjoint (block pattern a) (block pattern b) := by
  refine Finset.disjoint_left.mpr fun k hk hk' => ?_
  have hlt := (mem_block.mp hk).2
  have hle := (mem_block.mp hk').1
  omega

/-- The later of two disjoint blocks starts behind the other. -/
theorem add_le_of_disjoint_block (hne : pattern ≠ []) (hlt : a < b)
    (h : Disjoint (block pattern a) (block pattern b)) : a + pattern.length ≤ b := by
  have hpos : 0 < pattern.length := List.length_pos_iff.mpr hne
  have hb : b ∈ block pattern b := mem_block.mpr ⟨Nat.le_refl b, by omega⟩
  have hnot : b ∉ block pattern a := fun hmem => Finset.disjoint_left.mp h hmem hb
  rw [mem_block] at hnot
  omega

/-! ## Packings and families -/

theorem Packing.nodup {starts : List Nat} (h : Packing codes pattern 0 starts) (hne : pattern ≠ []) : starts.Nodup := by
  have hpos : 0 < pattern.length := List.length_pos_iff.mpr hne
  exact h.apart.imp fun hab => by omega

theorem Packing.disjointFamily {starts : List Nat} (h : Packing codes pattern 0 starts) :
    DisjointFamily codes pattern starts.toFinset := by
  refine ⟨?_, ?_⟩
  · intro a ha
    exact (List.prefix_iff_eq_take.mp (h.occurs a (List.mem_toFinset.mp ha)).2).symm
  · have hdisjoint : starts.Pairwise (Function.onFun Disjoint (block pattern)) := h.apart.imp disjoint_block
    rw [Set.PairwiseDisjoint, List.coe_toFinset]
    exact hdisjoint.set_pairwise

namespace DisjointFamily

theorem packing (h : DisjointFamily codes pattern starts) (hne : pattern ≠ []) :
    Packing codes pattern 0 starts.sort := by
  refine ⟨?_, ?_⟩
  · intro a ha
    have hoccurs := h.occurs a ((Finset.mem_sort _).mp ha)
    exact ⟨Nat.zero_le a, List.prefix_iff_eq_take.mpr hoccurs.symm⟩
  · refine (Finset.sortedLT_sort starts).pairwise.imp_of_mem ?_
    intro a b ha hb hlt
    have hab := h.disjoint ((Finset.mem_sort _).mp ha) ((Finset.mem_sort _).mp hb) (Nat.ne_of_lt hlt)
    exact add_le_of_disjoint_block hne hlt hab

theorem block_subset (h : DisjointFamily codes pattern starts) (hne : pattern ≠ []) (ha : a ∈ starts) :
    block pattern a ⊆ Finset.range codes.length := by
  have hpos : 0 < pattern.length := List.length_pos_iff.mpr hne
  have hlength := congrArg List.length (h.occurs a ha)
  rw [List.length_take, List.length_drop] at hlength
  intro k hk
  have := mem_block.mp hk
  rw [Finset.mem_range]
  omega

/-- The blocks of a family fit side by side into the opcodes. -/
theorem card_mul_length_le (h : DisjointFamily codes pattern starts) (hne : pattern ≠ []) :
    starts.card * pattern.length ≤ codes.length := by
  calc starts.card * pattern.length = (starts.biUnion (block pattern)).card := by
        rw [Finset.card_biUnion h.disjoint, Finset.sum_const_nat fun a _ => card_block pattern a]
    _ ≤ (Finset.range codes.length).card :=
        Finset.card_le_card (Finset.biUnion_subset.mpr fun _ ha => h.block_subset hne ha)
    _ = codes.length := Finset.card_range _

end DisjointFamily

variable {body : List Instruction} {opcodes : List Opcode}

theorem exists_disjointFamily_occurrences (hne : opcodes ≠ []) (body : List Instruction) :
    ∃ starts, DisjointFamily (opcodesOf body) opcodes starts ∧ starts.card = occurrences body opcodes := by
  obtain ⟨starts, hpacking, hlength⟩ := exists_packing_occurrences hne body
  exact ⟨starts.toFinset, hpacking.disjointFamily, by rw [List.toFinset_card_of_nodup (hpacking.nodup hne), hlength]⟩

theorem DisjointFamily.card_le_occurrences (h : DisjointFamily (opcodesOf body) opcodes starts) (hne : opcodes ≠ []) :
    starts.card ≤ occurrences body opcodes := by
  rw [← Finset.length_sort (· ≤ ·)]
  exact (h.packing hne).length_le_occurrences hne

theorem occurrences_eq_zero_iff (hne : opcodes ≠ []) :
    occurrences body opcodes = 0 ↔ scan body opcodes = .notFound := by
  rw [scan_eq_notFound_iff, ← one_le_occurrences_iff hne]
  omega

/-- A body counts as many occurrences as the largest family of disjoint ones has. There is none exactly if a scan finds
none, and together they have no more opcodes than the body. -/
theorem occurrences_greatest (body : List Instruction) (opcodes : List Opcode) (hne : opcodes ≠ []) :
    IsGreatest {n | ∃ starts, DisjointFamily (opcodesOf body) opcodes starts ∧ starts.card = n}
        (occurrences body opcodes) ∧
      (occurrences body opcodes = 0 ↔ scan body opcodes = .notFound) ∧
      occurrences body opcodes * opcodes.length ≤ (opcodesOf body).length := by
  obtain ⟨starts, hfamily, hcard⟩ := exists_disjointFamily_occurrences hne body
  refine ⟨⟨⟨starts, hfamily, hcard⟩, ?_⟩, occurrences_eq_zero_iff hne, ?_⟩
  · rintro n ⟨others, hothers, rfl⟩
    exact hothers.card_le_occurrences hne
  · rw [← hcard]
    exact hfamily.card_mul_length_le hne

/-- A body whose opcodes hold `26 27 26` three times, the second time between the two others and overlapping both. -/
def overlapping : List Instruction :=
  [.op 26, .op 27, .frame, .op 26, .line 8, .op 27, .op 26, .label 1, .op 27, .op 26]

theorem occurrences_overlapping :
    ([26, 27, 26] : List Opcode) ≠ [] ∧ occurrences overlapping [26, 27, 26] = 2 ∧
      ∀ starts, DisjointFamily (opcodesOf overlapping) [26, 27, 26] starts → starts.card ≤ 2 := by
  have hne : ([26, 27, 26] : List Opcode) ≠ [] := by decide
  have hcount : occurrences overlapping [26, 27, 26] = 2 := by decide
  obtain ⟨⟨-, hgreatest⟩, -, -⟩ := occurrences_greatest overlapping [26, 27, 26] hne
  rw [hcount] at hgreatest
  exact ⟨hne, hcount, fun starts hstarts => hgreatest ⟨starts, hstarts, rfl⟩⟩

end MethodSearch
