import MethodSearch.Proofs.Pattern.Markers

/-!
# Occurrences side by side

Occurrences of a pattern that do not overlap are a packing. Taking each window as early as the one before it lets it
makes a packing, and none is larger.
-/

namespace MethodSearch

open Bytecode

/-- Indices from `low` on at which the opcodes hold the pattern, in order and without overlaps. -/
structure Packing (codes pattern : List Opcode) (low : Nat) (starts : List Nat) : Prop where
  occurs : ∀ a ∈ starts, low ≤ a ∧ pattern <+: codes.drop a
  apart : starts.Pairwise fun a b => a + pattern.length ≤ b

namespace Packing

variable {codes pattern : List Opcode} {code : Opcode} {low low' a : Nat} {starts : List Nat}

theorem nil (codes pattern : List Opcode) (low : Nat) : Packing codes pattern low [] :=
  ⟨nofun, .nil⟩

theorem eq_nil (h : Packing [] pattern low starts) (hne : pattern ≠ []) : starts = [] := by
  refine List.eq_nil_iff_forall_not_mem.mpr fun a ha => hne ?_
  have hstart := (h.occurs a ha).2
  rwa [List.drop_nil, List.prefix_nil] at hstart

/-- The same indices counted with one more opcode in front. -/
theorem map_succ (h : Packing codes pattern low starts) (code : Opcode) :
    Packing (code :: codes) pattern (low + 1) (starts.map (· + 1)) := by
  refine ⟨?_, List.pairwise_map.mpr (h.apart.imp ?_)⟩
  · intro b hb
    obtain ⟨a, ha, rfl⟩ := List.mem_map.mp hb
    obtain ⟨hlow, hstart⟩ := h.occurs a ha
    exact ⟨Nat.succ_le_succ hlow, hstart⟩
  · intro a b hab
    omega

/-- The same indices counted without the opcode in front. -/
theorem map_pred (h : Packing (code :: codes) pattern (low + 1) starts) :
    Packing codes pattern low (starts.map (· - 1)) := by
  refine ⟨?_, List.pairwise_map.mpr (h.apart.imp_of_mem ?_)⟩
  · intro b hb
    obtain ⟨a, ha, rfl⟩ := List.mem_map.mp hb
    obtain ⟨hlow, hstart⟩ := h.occurs a ha
    obtain ⟨d, rfl⟩ := Nat.exists_eq_add_of_le' hlow
    exact ⟨by omega, hstart⟩
  · intro a b ha hb hab
    have := (h.occurs a ha).1
    omega

theorem cons (h : Packing codes pattern pattern.length starts) (hstart : pattern <+: codes) :
    Packing codes pattern 0 (0 :: starts) := by
  refine ⟨List.forall_mem_cons.mpr ⟨⟨Nat.le_refl 0, hstart⟩, ?_⟩, List.pairwise_cons.mpr ⟨?_, h.apart⟩⟩
  · intro a ha
    exact ⟨Nat.zero_le a, (h.occurs a ha).2⟩
  · intro a ha
    have := (h.occurs a ha).1
    omega

/-- The indices behind the first. -/
theorem tail (h : Packing codes pattern low (a :: starts)) : Packing codes pattern pattern.length starts := by
  have hapart := List.pairwise_cons.mp h.apart
  refine ⟨fun b hb => ⟨?_, (h.occurs b (List.mem_cons_of_mem a hb)).2⟩, hapart.2⟩
  have := hapart.1 b hb
  omega

theorem weaken (h : Packing codes pattern low' starts) (hle : low ≤ low') : Packing codes pattern low starts :=
  ⟨fun a ha => ⟨Nat.le_trans hle (h.occurs a ha).1, (h.occurs a ha).2⟩, h.apart⟩

/-- Where the pattern does not start, no packing does. -/
theorem of_not_prefix (h : Packing codes pattern 0 starts) (hstart : ¬pattern <+: codes) :
    Packing codes pattern 1 starts := by
  refine ⟨fun a ha => ⟨?_, (h.occurs a ha).2⟩, h.apart⟩
  rcases Nat.eq_zero_or_pos a with rfl | hpos
  · exact absurd (h.occurs 0 ha).2 hstart
  · exact hpos

end Packing

/-! ## The windows of a body -/

variable {body : List Instruction} {i : Instruction} {code : Opcode} {opcodes : List Opcode}

/-- At an opcode where no window is open, the pattern starts and its window takes `n` instructions, or it does not. -/
theorem windowsFrom_opcode_cases (hi : i.opcode? = some code) (opcodes : List Opcode) (pos : Nat)
    (body : List Instruction) :
    (¬opcodes <+: code :: opcodesOf body ∧
        windowsFrom opcodes 0 pos (i :: body) = windowsFrom opcodes 0 (pos + 1) body) ∨
      ∃ n, opcodes <+: code :: opcodesOf body ∧ rank body (n - 1) = opcodes.length - 1 ∧
        windowsFrom opcodes 0 pos (i :: body) = ⟨pos, pos + n⟩ :: windowsFrom opcodes (n - 1) (pos + 1) body := by
  rw [← opcodesOf_cons_opcode hi]
  cases hend : matchEnd? pos (i :: body) opcodes with
  | none =>
      refine .inl ⟨?_, windowsFrom_mismatch hi hend⟩
      rw [← matchEnd?_isSome_iff, hend]
      nofun
  | some stop =>
      obtain ⟨n, rfl, hn⟩ := matchEnd?_endsAfter hend
      refine .inr ⟨n, hn.prefix_opcodesOf, ?_, windowsFrom_match hi hend⟩
      rw [← rank_cons_opcode_pred hi, hn.rank_eq]

/-- Each window holds an occurrence behind those before it. -/
theorem exists_packing_windowsFrom (hne : opcodes ≠ []) (skip pos : Nat) (body : List Instruction) :
    ∃ starts, Packing (opcodesOf body) opcodes (rank body skip) starts ∧
      starts.length = (windowsFrom opcodes skip pos body).length := by
  induction body generalizing skip pos with
  | nil => exact ⟨[], .nil .., rfl⟩
  | cons i body ih =>
      cases hi : i.opcode? with
      | none =>
          rw [opcodesOf_cons_marker hi, rank_cons_marker_pred hi, windowsFrom_marker hi]
          exact ih ..
      | some code =>
          rw [opcodesOf_cons_opcode hi]
          cases skip with
          | succ skip =>
              obtain ⟨starts, hpacking, hlength⟩ := ih skip (pos + 1)
              rw [rank_cons_opcode hi, windowsFrom_taken]
              exact ⟨_, hpacking.map_succ code, by rw [List.length_map, hlength]⟩
          | zero =>
              rw [rank_zero]
              rcases windowsFrom_opcode_cases hi opcodes pos body with ⟨-, hwindows⟩ | ⟨n, hstart, hrank, hwindows⟩
              · obtain ⟨starts, hpacking, hlength⟩ := ih 0 (pos + 1)
                rw [rank_zero] at hpacking
                rw [hwindows]
                exact ⟨_, (hpacking.map_succ code).weaken (Nat.zero_le 1), by rw [List.length_map, hlength]⟩
              · obtain ⟨starts, hpacking, hlength⟩ := ih (n - 1) (pos + 1)
                have hpos : 0 < opcodes.length := List.length_pos_iff.mpr hne
                have hbehind := hpacking.map_succ code
                rw [hrank, Nat.sub_add_cancel hpos] at hbehind
                rw [hwindows]
                exact ⟨_, hbehind.cons hstart, by rw [List.length_cons, List.length_map, hlength, List.length_cons]⟩

/-- No packing behind the instructions already taken is larger than the windows. -/
theorem Packing.length_le_windowsFrom (hne : opcodes ≠ []) {skip : Nat} (pos : Nat) {starts : List Nat}
    (h : Packing (opcodesOf body) opcodes (rank body skip) starts) :
    starts.length ≤ (windowsFrom opcodes skip pos body).length := by
  induction body generalizing skip pos starts with
  | nil =>
      obtain rfl := h.eq_nil hne
      exact Nat.zero_le _
  | cons i body ih =>
      cases hi : i.opcode? with
      | none =>
          rw [opcodesOf_cons_marker hi, rank_cons_marker_pred hi] at h
          rw [windowsFrom_marker hi]
          exact ih _ h
      | some code =>
          rw [opcodesOf_cons_opcode hi] at h
          cases skip with
          | succ skip =>
              rw [rank_cons_opcode hi] at h
              rw [windowsFrom_taken, ← starts.length_map (· - 1)]
              exact ih _ h.map_pred
          | zero =>
              rw [rank_zero] at h
              rcases windowsFrom_opcode_cases hi opcodes pos body with ⟨hstart, hwindows⟩ | ⟨n, -, hrank, hwindows⟩
              · rw [hwindows, ← starts.length_map (· - 1)]
                exact ih _ (h.of_not_prefix hstart).map_pred
              · cases starts with
                | nil => exact Nat.zero_le _
                | cons a starts =>
                    -- The first index is not before the window, so the others come behind it.
                    have hpos : 0 < opcodes.length := List.length_pos_iff.mpr hne
                    have hbehind := h.tail
                    rw [← Nat.sub_add_cancel hpos, ← hrank] at hbehind
                    rw [hwindows, List.length_cons, List.length_cons, ← starts.length_map (· - 1)]
                    exact Nat.succ_le_succ (ih _ hbehind.map_pred)

theorem exists_packing_occurrences (hne : opcodes ≠ []) (body : List Instruction) :
    ∃ starts, Packing (opcodesOf body) opcodes 0 starts ∧ starts.length = occurrences body opcodes := by
  have hwindows : windows body opcodes = windowsFrom opcodes 0 0 body := by simp [windows, hne]
  rw [occurrences, hwindows, ← rank_zero body]
  exact exists_packing_windowsFrom hne 0 0 body

theorem Packing.length_le_occurrences (hne : opcodes ≠ []) {starts : List Nat}
    (h : Packing (opcodesOf body) opcodes 0 starts) : starts.length ≤ occurrences body opcodes := by
  have hwindows : windows body opcodes = windowsFrom opcodes 0 0 body := by simp [windows, hne]
  rw [occurrences, hwindows]
  rw [← rank_zero body] at h
  exact h.length_le_windowsFrom hne 0

/-- As many occurrences without overlaps as a number says. -/
theorem le_occurrences_iff (hne : opcodes ≠ []) {n : Nat} :
    n ≤ occurrences body opcodes ↔ ∃ starts, Packing (opcodesOf body) opcodes 0 starts ∧ starts.length = n := by
  constructor
  · intro h
    obtain ⟨starts, hpacking, hlength⟩ := exists_packing_occurrences hne body
    refine ⟨starts.take n, ⟨fun a ha => hpacking.occurs a (List.mem_of_mem_take ha), ?_⟩, ?_⟩
    · exact hpacking.apart.sublist (List.take_sublist n starts)
    · rw [List.length_take, hlength, Nat.min_eq_left h]
  · rintro ⟨starts, hpacking, rfl⟩
    exact hpacking.length_le_occurrences hne

theorem one_le_occurrences_iff (hne : opcodes ≠ []) : 1 ≤ occurrences body opcodes ↔ opcodes <:+: opcodesOf body := by
  rw [le_occurrences_iff hne]
  constructor
  · rintro ⟨starts, hpacking, hlength⟩
    obtain ⟨a, rfl⟩ := List.length_eq_one_iff.mp hlength
    have hstart := (hpacking.occurs a List.mem_cons_self).2
    exact hstart.isInfix.trans (List.drop_suffix a _).isInfix
  · rintro ⟨front, back, hcodes⟩
    have hstart : opcodes <+: (opcodesOf body).drop front.length := by
      rw [← hcodes, List.append_assoc, List.drop_left]
      exact List.prefix_append ..
    exact ⟨[front.length], ⟨by simpa using hstart, List.pairwise_singleton ..⟩, rfl⟩

/-- Two occurrences of which one ends before the other starts. -/
def HoldsTwice (codes pattern : List Opcode) : Prop :=
  ∃ a b, a + pattern.length ≤ b ∧ pattern <+: codes.drop a ∧ pattern <+: codes.drop b

theorem two_le_occurrences_iff (hne : opcodes ≠ []) :
    2 ≤ occurrences body opcodes ↔ HoldsTwice (opcodesOf body) opcodes := by
  rw [le_occurrences_iff hne]
  constructor
  · rintro ⟨starts, hpacking, hlength⟩
    match starts, hlength with
    | [a, b], _ =>
        have hab : a + opcodes.length ≤ b := by simpa using hpacking.apart
        exact ⟨a, b, hab, (hpacking.occurs a (by simp)).2, (hpacking.occurs b (by simp)).2⟩
  · rintro ⟨a, b, hab, ha, hb⟩
    exact ⟨[a, b], ⟨by simp [ha, hb], List.pairwise_pair.mpr hab⟩, rfl⟩

end MethodSearch
