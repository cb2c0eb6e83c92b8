import MethodSearch.Proofs.Pattern.Occurrence

/-!
# Positions by rank

The rank of a position is the number of opcodes before it. It takes the positions of a body to those of the list of its
opcodes, where the markers no longer matter. An occurrence ends at the first position of its rank.
-/

namespace MethodSearch

open Bytecode

namespace Bytecode

variable {body : List Instruction} {i : Instruction} {j k : Nat}

/-- How many opcodes stand before a position. -/
def rank (body : List Instruction) (k : Nat) : Nat :=
  (opcodesOf (body.take k)).length

@[simp] theorem rank_zero (body : List Instruction) : rank body 0 = 0 :=
  rfl

theorem rank_cons_marker (h : i.opcode? = none) (body : List Instruction) (k : Nat) :
    rank (i :: body) (k + 1) = rank body k := by
  rw [rank, List.take_succ_cons, opcodesOf_cons_marker h, rank]

theorem rank_cons_opcode {code : Opcode} (h : i.opcode? = some code) (body : List Instruction) (k : Nat) :
    rank (i :: body) (k + 1) = rank body k + 1 := by
  rw [rank, List.take_succ_cons, opcodesOf_cons_opcode h, List.length_cons, rank]

theorem rank_cons_marker_pred (h : i.opcode? = none) (body : List Instruction) (k : Nat) :
    rank (i :: body) k = rank body (k - 1) := by
  cases k with
  | zero => rfl
  | succ k => exact rank_cons_marker h body k

theorem rank_cons_opcode_pred {code : Opcode} (h : i.opcode? = some code) (body : List Instruction) (k : Nat) :
    rank (i :: body) k - 1 = rank body (k - 1) := by
  cases k with
  | zero => rfl
  | succ k => rw [rank_cons_opcode h, Nat.add_sub_cancel, Nat.add_sub_cancel]

theorem opcodesOf_take_append_drop (body : List Instruction) (k : Nat) :
    opcodesOf (body.take k) ++ opcodesOf (body.drop k) = opcodesOf body := by
  rw [opcodesOf, opcodesOf, ← List.filterMap_append, List.take_append_drop, opcodesOf]

theorem opcodesOf_take (body : List Instruction) (k : Nat) :
    opcodesOf (body.take k) = (opcodesOf body).take (rank body k) := by
  rw [← opcodesOf_take_append_drop body k, rank, List.take_left]

theorem opcodesOf_drop (body : List Instruction) (k : Nat) :
    opcodesOf (body.drop k) = (opcodesOf body).drop (rank body k) := by
  rw [← opcodesOf_take_append_drop body k, rank, List.drop_left]

theorem rank_add (body : List Instruction) (j k : Nat) : rank body (j + k) = rank body j + rank (body.drop j) k := by
  rw [rank, List.take_add, opcodesOf, List.filterMap_append, List.length_append]
  rfl

theorem rank_mono (h : j ≤ k) : rank body j ≤ rank body k := by
  obtain ⟨d, rfl⟩ := Nat.exists_eq_add_of_le h
  rw [rank_add]
  exact Nat.le_add_right ..

theorem lt_of_rank_lt (h : rank body j < rank body k) : j < k :=
  Nat.lt_of_not_le fun hle => Nat.not_lt_of_le (rank_mono hle) h

theorem rank_le (body : List Instruction) (k : Nat) : rank body k ≤ (opcodesOf body).length := by
  rw [← opcodesOf_take_append_drop body k, List.length_append]
  exact Nat.le_add_right ..

theorem OpcodeAt.rank_succ (h : OpcodeAt body k) : rank body (k + 1) = rank body k + 1 := by
  induction body generalizing k with
  | nil =>
      obtain ⟨_, hcode⟩ := h
      cases hcode
  | cons i body ih =>
      cases hi : i.opcode? with
      | none =>
          cases k with
          | zero =>
              obtain ⟨_, hcode⟩ := opcodeAt_zero.mp h
              cases hi.symm.trans hcode
          | succ k => rw [rank_cons_marker hi, rank_cons_marker hi, ih (opcodeAt_succ.mp h)]
      | some code =>
          cases k with
          | zero => rw [rank_cons_opcode hi, rank_zero, rank_zero]
          | succ k => rw [rank_cons_opcode hi, rank_cons_opcode hi, ih (opcodeAt_succ.mp h)]

theorem OpcodeAt.rank_lt (h : OpcodeAt body k) : rank body k < (opcodesOf body).length := by
  have hle := rank_le body (k + 1)
  rwa [h.rank_succ] at hle

/-- Every opcode of the list stands somewhere in the body. -/
theorem exists_opcodeAt_rank {r : Nat} (h : r < (opcodesOf body).length) :
    ∃ k, OpcodeAt body k ∧ rank body k = r := by
  induction body generalizing r with
  | nil => cases h
  | cons i body ih =>
      cases hi : i.opcode? with
      | none =>
          rw [opcodesOf_cons_marker hi] at h
          obtain ⟨k, hk, rfl⟩ := ih h
          exact ⟨k + 1, opcodeAt_succ.mpr hk, rank_cons_marker hi ..⟩
      | some code =>
          rw [opcodesOf_cons_opcode hi] at h
          cases r with
          | zero => exact ⟨0, opcodeAt_zero.mpr ⟨code, hi⟩, rfl⟩
          | succ r =>
              obtain ⟨k, hk, rfl⟩ := ih (Nat.lt_of_succ_lt_succ h)
              exact ⟨k + 1, opcodeAt_succ.mpr hk, rank_cons_opcode hi ..⟩

end Bytecode

variable {body : List Instruction} {opcodes part : List Opcode} {j k n : Nat}

/-! ## Ends of occurrences -/

namespace EndsAfter

theorem rank_eq (h : EndsAfter body opcodes n) : rank body n = opcodes.length :=
  congrArg List.length h.opcodes_eq

/-- An occurrence ends at the first position of its rank. -/
theorem le_of_rank (h : EndsAfter body opcodes n) (hk : opcodes.length ≤ rank body k) : n ≤ k := by
  cases n with
  | zero => exact Nat.zero_le k
  | succ m =>
      have hrank := h.rank_eq
      rw [(h.last m rfl).rank_succ] at hrank
      have hlt : rank body m < rank body k := by omega
      exact lt_of_rank_lt hlt

theorem unique (h : EndsAfter body opcodes n) (hk : EndsAfter body opcodes k) : n = k :=
  Nat.le_antisymm (h.le_of_rank (Nat.le_of_eq hk.rank_eq.symm)) (hk.le_of_rank (Nat.le_of_eq h.rank_eq.symm))

theorem prefix_opcodesOf (h : EndsAfter body opcodes n) : opcodes <+: opcodesOf body := by
  rw [← h.opcodes_eq]
  exact opcodesOf_prefix (List.take_prefix ..)

end EndsAfter

theorem matchEnd?_eq_some_iff {pos stop : Nat} :
    matchEnd? pos body opcodes = some stop ↔ ∃ n, stop = pos + n ∧ EndsAfter body opcodes n := by
  constructor
  · exact matchEnd?_endsAfter
  · rintro ⟨n, rfl, hn⟩
    have hsome : (matchEnd? pos body opcodes).isSome := matchEnd?_isSome_iff.mpr hn.prefix_opcodesOf
    obtain ⟨stop, hstop⟩ := Option.isSome_iff_exists.mp hsome
    obtain ⟨m, rfl, hm⟩ := matchEnd?_endsAfter hstop
    rw [hstop, hm.unique hn]

theorem StartsAt.prefix_drop (h : StartsAt body opcodes k) : opcodes <+: (opcodesOf body).drop (rank body k) := by
  rw [← opcodesOf_drop]
  exact h.2

/-- Where the opcodes of a body hold a pattern from some index on, the pattern starts at the position of that rank. -/
theorem exists_startsAt_rank {r : Nat} (hne : opcodes ≠ []) (h : opcodes <+: (opcodesOf body).drop r) :
    ∃ k, StartsAt body opcodes k ∧ rank body k = r := by
  have hpos : 0 < opcodes.length := List.length_pos_iff.mpr hne
  have hle := h.length_le
  rw [List.length_drop] at hle
  have hlt : r < (opcodesOf body).length := by omega
  obtain ⟨k, hk, rfl⟩ := exists_opcodeAt_rank hlt
  rw [← opcodesOf_drop] at h
  exact ⟨k, ⟨hk, h⟩, rfl⟩

namespace FirstAt

theorem startsAt (h : FirstAt body opcodes k n) : StartsAt body opcodes k :=
  ⟨h.start, h.stop.prefix_opcodesOf⟩

theorem rank_stop (h : FirstAt body opcodes k n) : rank body (k + n) = rank body k + opcodes.length := by
  rw [rank_add, h.stop.rank_eq]

theorem unique {k' n' : Nat} (h : FirstAt body opcodes k n) (h' : FirstAt body opcodes k' n') :
    k = k' ∧ n = n' := by
  obtain rfl : k = k' := Nat.le_antisymm (h.least k' h'.startsAt) (h'.least k h.startsAt)
  exact ⟨rfl, h.stop.unique h'.stop⟩

theorem stop_le_of_rank (h : FirstAt body opcodes k n) (hne : opcodes ≠ [])
    (hj : rank body k + opcodes.length ≤ rank body j) : k + n ≤ j := by
  have hpos : 0 < opcodes.length := List.length_pos_iff.mpr hne
  have hlt : rank body k < rank body j := by omega
  obtain ⟨d, rfl⟩ := Nat.exists_eq_add_of_lt (lt_of_rank_lt hlt)
  rw [Nat.add_assoc, rank_add] at hj
  exact Nat.add_le_add_left (h.stop.le_of_rank (Nat.le_of_add_le_add_left hj)) k

/-- A part of a pattern ends no later than the pattern. -/
theorem stop_le_of_infix {k' n' : Nat} (hp : FirstAt body part k n) (h : FirstAt body opcodes k' n')
    (hne : part ≠ []) (hwhole : part <:+: opcodes) : k + n ≤ k' + n' := by
  obtain ⟨front, back, rfl⟩ := hwhole
  have hdrop : part <+: (opcodesOf body).drop (rank body k' + front.length) := by
    obtain ⟨rest, hrest⟩ := h.startsAt.prefix_drop
    rw [← List.drop_drop, ← hrest, List.append_assoc, List.append_assoc, List.drop_left]
    exact List.prefix_append ..
  obtain ⟨j, hj, hrank⟩ := exists_startsAt_rank hne hdrop
  have hle : rank body k ≤ rank body j := rank_mono (hp.least j hj)
  have hstop := h.rank_stop
  simp only [List.length_append] at hstop
  exact hp.stop_le_of_rank hne (by omega)

end FirstAt

/-- Only the windows depend on the position a search starts to count from. -/
theorem firstWindow?_shift (opcodes : List Opcode) (pos : Nat) (body : List Instruction) :
    firstWindow? opcodes pos body =
      (firstWindow? opcodes 0 body).map fun w => ⟨pos + w.start, pos + w.stop⟩ := by
  cases h : firstWindow? opcodes 0 body with
  | none => exact (firstWindow?_eq_none_iff pos).mpr ((firstWindow?_eq_none_iff 0).mp h)
  | some w =>
      obtain ⟨k, n, rfl, hfirst⟩ := firstWindow?_firstAt h
      cases h' : firstWindow? opcodes pos body with
      | none => exact absurd ⟨k, hfirst.startsAt⟩ ((firstWindow?_eq_none_iff pos).mp h')
      | some v =>
          obtain ⟨k', n', rfl, hfirst'⟩ := firstWindow?_firstAt h'
          obtain ⟨rfl, rfl⟩ := hfirst'.unique hfirst
          simp [Nat.add_assoc]

theorem Scan.window?_eq_some_iff {s : Scan} {w : Window} : s.window? = some w ↔ s = .found w := by
  cases s <;> simp [window?]

theorem scan_ne_notFound_iff : scan body opcodes ≠ .notFound ↔ opcodes <:+: opcodesOf body := by
  rw [Ne, scan_eq_notFound_iff, Classical.not_not]

theorem scan_eq_found_iff (hne : opcodes ≠ []) {w : Window} :
    scan body opcodes = .found w ↔ ∃ k n, w = ⟨k, k + n⟩ ∧ FirstAt body opcodes k n := by
  constructor
  · exact scan_firstAt hne
  · rintro ⟨k, n, rfl, hfirst⟩
    cases h : scan body opcodes with
    | unscanned => exact absurd h (scan_ne_unscanned body opcodes)
    | notFound =>
        exact absurd h (scan_ne_notFound_iff.mpr ((infix_opcodesOf_iff hne).mpr ⟨k, hfirst.startsAt⟩))
    | found v =>
        obtain ⟨k', n', rfl, hfirst'⟩ := scan_firstAt hne h
        obtain ⟨rfl, rfl⟩ := hfirst'.unique hfirst
        rfl

/-- The window of a part of a pattern ends no later than that of the pattern. -/
theorem scan_stop_le_of_infix {v w : Window} (hwhole : part <:+: opcodes) (hv : scan body part = .found v)
    (hw : scan body opcodes = .found w) : v.stop ≤ w.stop := by
  by_cases hne : part = []
  · obtain rfl : .placeholder = v := by simpa [scan, hne] using hv
    exact Nat.zero_le _
  · have hne' : opcodes ≠ [] := by
      rintro rfl
      exact hne (List.infix_nil.mp hwhole)
    obtain ⟨k, n, rfl, hfirst⟩ := scan_firstAt hne hv
    obtain ⟨k', n', rfl, hfirst'⟩ := scan_firstAt hne' hw
    exact hfirst.stop_le_of_infix hfirst' hne hwhole

end MethodSearch
