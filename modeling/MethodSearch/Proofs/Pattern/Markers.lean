import MethodSearch.Proofs.Pattern.Rank

/-!
# Bodies without their markers

Dropping the markers takes a window to the ranks of its ends, and changes neither whether a pattern is found nor how
often.
-/

namespace MethodSearch

open Bytecode

namespace Bytecode

variable {body : List Instruction} {i : Instruction} {k r : Nat}

/-- The body with its markers dropped. -/
def withoutMarkers (body : List Instruction) : List Instruction :=
  body.filter fun i => !i.isMarker

theorem withoutMarkers_cons_marker (h : i.opcode? = none) (body : List Instruction) :
    withoutMarkers (i :: body) = withoutMarkers body := by
  have hmarker : i.isMarker = true := isMarker_eq_true_iff.mpr h
  exact List.filter_cons_of_neg (by simp [hmarker])

theorem withoutMarkers_cons_opcode {code : Opcode} (h : i.opcode? = some code) (body : List Instruction) :
    withoutMarkers (i :: body) = i :: withoutMarkers body := by
  have hmarker : i.isMarker = false := isMarker_eq_false_iff.mpr ⟨code, h⟩
  exact List.filter_cons_of_pos (by simp [hmarker])

theorem opcode?_eq_some_iff {code : Opcode} : i.opcode? = some code ↔ i = .op code := by
  cases i <;> simp [Instruction.opcode?]

/-- What is left of a body is its opcodes. -/
theorem withoutMarkers_eq_map (body : List Instruction) :
    withoutMarkers body = (opcodesOf body).map Instruction.op := by
  induction body with
  | nil => rfl
  | cons i body ih =>
      cases h : i.opcode? with
      | none => rw [withoutMarkers_cons_marker h, opcodesOf_cons_marker h, ih]
      | some code =>
          rw [withoutMarkers_cons_opcode h, opcodesOf_cons_opcode h, ih, List.map_cons, opcode?_eq_some_iff.mp h]

theorem withoutMarkers_length (body : List Instruction) :
    (withoutMarkers body).length = (opcodesOf body).length := by
  rw [withoutMarkers_eq_map, List.length_map]

theorem opcodesOf_withoutMarkers (body : List Instruction) : opcodesOf (withoutMarkers body) = opcodesOf body := by
  have hop : Instruction.opcode? ∘ Instruction.op = some := rfl
  rw [withoutMarkers_eq_map, opcodesOf, List.filterMap_map, hop, List.filterMap_some]

theorem withoutMarkers_take (body : List Instruction) (k : Nat) :
    withoutMarkers (body.take k) = (withoutMarkers body).take (rank body k) := by
  rw [withoutMarkers_eq_map, withoutMarkers_eq_map, opcodesOf_take, List.map_take]

theorem withoutMarkers_drop (body : List Instruction) (k : Nat) :
    withoutMarkers (body.drop k) = (withoutMarkers body).drop (rank body k) := by
  rw [withoutMarkers_eq_map, withoutMarkers_eq_map, opcodesOf_drop, List.map_drop]

theorem opcodeAt_withoutMarkers_iff : OpcodeAt (withoutMarkers body) r ↔ r < (opcodesOf body).length := by
  rw [OpcodeAt, withoutMarkers_eq_map, List.getElem?_map]
  constructor
  · rintro ⟨code, h⟩
    by_cases hr : r < (opcodesOf body).length
    · exact hr
    · rw [List.getElem?_eq_none (by omega)] at h
      cases h
  · intro hr
    exact ⟨(opcodesOf body)[r], by rw [List.getElem?_eq_getElem hr]; rfl⟩

end Bytecode

variable {body : List Instruction} {opcodes : List Opcode} {k n : Nat}

theorem EndsAfter.withoutMarkers (h : EndsAfter body opcodes n) :
    EndsAfter (withoutMarkers body) opcodes (rank body n) := by
  refine ⟨?_, ?_, ?_⟩
  · rw [withoutMarkers_length]
    exact rank_le body n
  · rw [← withoutMarkers_take, opcodesOf_withoutMarkers, h.opcodes_eq]
  · intro r hr
    have hle := rank_le body n
    exact opcodeAt_withoutMarkers_iff.mpr (by omega)

theorem FirstAt.withoutMarkers (h : FirstAt body opcodes k n) :
    FirstAt (withoutMarkers body) opcodes (rank body k) (rank (body.drop k) n) := by
  refine ⟨opcodeAt_withoutMarkers_iff.mpr h.start.rank_lt, ?_, ?_⟩
  · rw [← withoutMarkers_drop]
    exact h.stop.withoutMarkers
  · rintro r ⟨hop, hr⟩
    -- The opcode of that index stands somewhere in the whole body, and the pattern starts there too.
    obtain ⟨j, hj, rfl⟩ := exists_opcodeAt_rank (opcodeAt_withoutMarkers_iff.mp hop)
    rw [← withoutMarkers_drop, opcodesOf_withoutMarkers] at hr
    exact rank_mono (h.least j ⟨hj, hr⟩)

/-- The window of the same opcodes once the markers are dropped. -/
def Window.ranked (body : List Instruction) (w : Window) : Window :=
  ⟨rank body w.start, rank body w.stop⟩

def Scan.ranked (body : List Instruction) : Scan → Scan
  | .found w => .found (w.ranked body)
  | .unscanned => .unscanned
  | .notFound => .notFound

theorem scan_withoutMarkers (body : List Instruction) (opcodes : List Opcode) :
    scan (withoutMarkers body) opcodes = (scan body opcodes).ranked body := by
  by_cases hne : opcodes = []
  · simp [scan, hne, Scan.ranked, Window.ranked, Window.placeholder]
  · cases h : scan body opcodes with
    | unscanned => exact absurd h (scan_ne_unscanned body opcodes)
    | notFound =>
        rw [Scan.ranked, scan_eq_notFound_iff, opcodesOf_withoutMarkers]
        exact scan_eq_notFound_iff.mp h
    | found w =>
        obtain ⟨k, n, rfl, hfirst⟩ := scan_firstAt hne h
        rw [Scan.ranked, scan_eq_found_iff hne]
        refine ⟨rank body k, rank (body.drop k) n, ?_, hfirst.withoutMarkers⟩
        rw [Window.ranked, rank_add]

/-! ## Counts -/

theorem matchEnd?_withoutMarkers {pos stop : Nat} (h : matchEnd? pos body opcodes = some stop) (pos' : Nat) :
    ∃ n, stop = pos + n ∧ matchEnd? pos' (withoutMarkers body) opcodes = some (pos' + rank body n) := by
  obtain ⟨n, rfl, hn⟩ := matchEnd?_eq_some_iff.mp h
  exact ⟨n, rfl, matchEnd?_eq_some_iff.mpr ⟨rank body n, rfl, hn.withoutMarkers⟩⟩

theorem matchEnd?_withoutMarkers_eq_none {pos : Nat} (h : matchEnd? pos body opcodes = none) (pos' : Nat) :
    matchEnd? pos' (withoutMarkers body) opcodes = none := by
  rw [← Option.not_isSome_iff_eq_none, matchEnd?_isSome_iff] at h ⊢
  rwa [opcodesOf_withoutMarkers]

section WindowsFrom

variable {i : Instruction} {code : Opcode} {pos : Nat}

theorem windowsFrom_marker (hi : i.opcode? = none) (opcodes : List Opcode) (skip pos : Nat) (body : List Instruction) :
    windowsFrom opcodes skip pos (i :: body) = windowsFrom opcodes (skip - 1) (pos + 1) body := by
  have hmarker : i.isMarker = true := isMarker_eq_true_iff.mpr hi
  cases skip with
  | zero => rw [windowsFrom, if_pos hmarker]
  | succ skip => rw [windowsFrom, Nat.add_sub_cancel]

theorem windowsFrom_taken (i : Instruction) (opcodes : List Opcode) (skip pos : Nat) (body : List Instruction) :
    windowsFrom opcodes (skip + 1) pos (i :: body) = windowsFrom opcodes skip (pos + 1) body := by
  rw [windowsFrom]

theorem windowsFrom_mismatch (hi : i.opcode? = some code) (h : matchEnd? pos (i :: body) opcodes = none) :
    windowsFrom opcodes 0 pos (i :: body) = windowsFrom opcodes 0 (pos + 1) body := by
  have hmarker : i.isMarker = false := isMarker_eq_false_iff.mpr ⟨code, hi⟩
  simp [windowsFrom, hmarker, h]

theorem windowsFrom_match (hi : i.opcode? = some code) (h : matchEnd? pos (i :: body) opcodes = some (pos + n)) :
    windowsFrom opcodes 0 pos (i :: body) = ⟨pos, pos + n⟩ :: windowsFrom opcodes (n - 1) (pos + 1) body := by
  have hmarker : i.isMarker = false := isMarker_eq_false_iff.mpr ⟨code, hi⟩
  have hskip : pos + n - (pos + 1) = n - 1 := by omega
  simp [windowsFrom, hmarker, h, hskip]

end WindowsFrom

/-- Instructions that belong to a window already taken keep belonging to it. -/
theorem windowsFrom_withoutMarkers_length (opcodes : List Opcode) (body : List Instruction) (skip pos pos' : Nat) :
    (windowsFrom opcodes (rank body skip) pos' (withoutMarkers body)).length =
      (windowsFrom opcodes skip pos body).length := by
  induction body generalizing skip pos pos' with
  | nil => rfl
  | cons i body ih =>
      cases hi : i.opcode? with
      | none =>
          rw [withoutMarkers_cons_marker hi, windowsFrom_marker hi, rank_cons_marker_pred hi]
          exact ih ..
      | some code =>
          have hcons := withoutMarkers_cons_opcode hi body
          cases skip with
          | succ skip =>
              rw [rank_cons_opcode hi, hcons, windowsFrom_taken, windowsFrom_taken]
              exact ih ..
          | zero =>
              rw [rank_zero]
              -- Both bodies begin with the opcode, so that a window starts here in both or in neither.
              cases hend : matchEnd? pos (i :: body) opcodes with
              | none =>
                  have hend' := matchEnd?_withoutMarkers_eq_none hend pos'
                  rw [hcons] at hend' ⊢
                  rw [windowsFrom_mismatch hi hend', windowsFrom_mismatch hi hend]
                  exact ih 0 ..
              | some stop =>
                  obtain ⟨n, rfl, hend'⟩ := matchEnd?_withoutMarkers hend pos'
                  rw [hcons] at hend' ⊢
                  rw [windowsFrom_match hi hend', windowsFrom_match hi hend, rank_cons_opcode_pred hi,
                    List.length_cons, List.length_cons, ih]

theorem occurrences_withoutMarkers (body : List Instruction) (opcodes : List Opcode) :
    occurrences (withoutMarkers body) opcodes = occurrences body opcodes := by
  by_cases hne : opcodes = []
  · simp [occurrences, windows, hne]
  · simpa [occurrences, windows, hne] using windowsFrom_withoutMarkers_length opcodes body 0 0 0

end MethodSearch
