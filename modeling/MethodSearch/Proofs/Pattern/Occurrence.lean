import MethodSearch.Pattern.Scan

/-!
# Where a body holds a pattern

A pattern starts at an opcode of the body when the opcodes from there on begin with it. A scan finds the first such
place, and a window that ends right behind the last opcode of the pattern.
-/

namespace MethodSearch

open Bytecode

namespace Bytecode

variable {body : List Instruction} {i : Instruction}

theorem opcodesOf_cons_marker (h : i.opcode? = none) (body : List Instruction) :
    opcodesOf (i :: body) = opcodesOf body :=
  List.filterMap_cons_none h

theorem opcodesOf_cons_opcode {code : Opcode} (h : i.opcode? = some code) (body : List Instruction) :
    opcodesOf (i :: body) = code :: opcodesOf body :=
  List.filterMap_cons_some h

theorem opcodesOf_prefix {as bs : List Instruction} (h : as <+: bs) : opcodesOf as <+: opcodesOf bs :=
  h.filterMap _

theorem isMarker_eq_true_iff : i.isMarker = true ↔ i.opcode? = none :=
  Option.isNone_iff_eq_none

theorem isMarker_eq_false_iff : i.isMarker = false ↔ ∃ code, i.opcode? = some code := by
  rw [Instruction.isMarker, Option.isNone_eq_false_iff, Option.isSome_iff_exists]

theorem not_isMarker_iff : ¬i.isMarker ↔ ∃ code, i.opcode? = some code := by
  rw [Bool.not_eq_true, isMarker_eq_false_iff]

/-- An opcode stands at the position. -/
def OpcodeAt (body : List Instruction) (k : Nat) : Prop :=
  ∃ code, body[k]?.bind Instruction.opcode? = some code

theorem opcodeAt_zero : OpcodeAt (i :: body) 0 ↔ ∃ code, i.opcode? = some code :=
  Iff.rfl

theorem opcodeAt_succ {k : Nat} : OpcodeAt (i :: body) (k + 1) ↔ OpcodeAt body k :=
  Iff.rfl

theorem opcodeAt_drop {j k : Nat} : OpcodeAt (body.drop j) k ↔ OpcodeAt body (j + k) := by
  rw [OpcodeAt, List.getElem?_drop, OpcodeAt]

end Bytecode

variable {body : List Instruction} {opcodes : List Opcode}

/-- The opcodes are those of the first `n` instructions, and the last of these is an opcode. -/
structure EndsAfter (body : List Instruction) (opcodes : List Opcode) (n : Nat) : Prop where
  le_length : n ≤ body.length
  opcodes_eq : opcodesOf (body.take n) = opcodes
  last : ∀ k, n = k + 1 → OpcodeAt body k

namespace EndsAfter

variable {i : Instruction} {p : Opcode} {ps : List Opcode} {n : Nat}

theorem nil (body : List Instruction) : EndsAfter body [] 0 :=
  ⟨Nat.zero_le _, rfl, fun _ h => nomatch h⟩

theorem pos (h : EndsAfter body opcodes n) (hne : opcodes ≠ []) : 0 < n := by
  rcases Nat.eq_zero_or_pos n with rfl | hpos
  · exact absurd h.opcodes_eq.symm hne
  · exact hpos

theorem marker (h : EndsAfter body (p :: ps) n) (hi : i.opcode? = none) :
    EndsAfter (i :: body) (p :: ps) (n + 1) := by
  refine ⟨Nat.succ_le_succ h.le_length, ?_, ?_⟩
  · rw [List.take_succ_cons, opcodesOf_cons_marker hi, h.opcodes_eq]
  · rintro k ⟨⟩
    -- Opcodes are still due, so the marker is not the last instruction.
    cases n with
    | zero => exact absurd (h.pos (by simp)) (Nat.lt_irrefl 0)
    | succ n => exact opcodeAt_succ.mpr (h.last n rfl)

theorem opcode (h : EndsAfter body ps n) (hi : i.opcode? = some p) : EndsAfter (i :: body) (p :: ps) (n + 1) := by
  refine ⟨Nat.succ_le_succ h.le_length, ?_, ?_⟩
  · rw [List.take_succ_cons, opcodesOf_cons_opcode hi, h.opcodes_eq]
  · rintro k ⟨⟩
    cases n with
    | zero => exact opcodeAt_zero.mpr ⟨p, hi⟩
    | succ n => exact opcodeAt_succ.mpr (h.last n rfl)

end EndsAfter

theorem matchEnd?_endsAfter {pos stop : Nat} (h : matchEnd? pos body opcodes = some stop) :
    ∃ n, stop = pos + n ∧ EndsAfter body opcodes n := by
  fun_induction matchEnd? pos body opcodes with
  | case1 body pos =>
      obtain rfl := Option.some.inj h
      exact ⟨0, rfl, .nil body⟩
  | case2 => cases h
  | case3 pos i body p ps hi ih =>
      obtain ⟨n, rfl, hn⟩ := ih h
      exact ⟨n + 1, by omega, hn.marker hi⟩
  | case4 pos i body p ps hi ih =>
      obtain ⟨n, rfl, hn⟩ := ih h
      exact ⟨n + 1, by omega, hn.opcode hi⟩
  | case5 => cases h

theorem matchEnd?_isSome_iff {pos : Nat} : (matchEnd? pos body opcodes).isSome ↔ opcodes <+: opcodesOf body := by
  fun_induction matchEnd? pos body opcodes with
  | case1 => simp
  | case2 => simp [opcodesOf]
  | case3 pos i body p ps hi ih => rw [ih, opcodesOf_cons_marker hi]
  | case4 pos i body p ps hi ih => rw [ih, opcodesOf_cons_opcode hi, List.cons_prefix_cons, eq_self, true_and]
  | case5 pos i body p ps code hi hne =>
      rw [opcodesOf_cons_opcode hi, List.cons_prefix_cons]
      simp [Ne.symm hne]

/-! ## The first occurrence -/

/-- An opcode stands at the position, and the opcodes from there on begin with the given ones. -/
def StartsAt (body : List Instruction) (opcodes : List Opcode) (k : Nat) : Prop :=
  OpcodeAt body k ∧ opcodes <+: opcodesOf (body.drop k)

theorem startsAt_zero_iff (pos : Nat) {i : Instruction} :
    StartsAt (i :: body) opcodes 0 ↔
      i.isMarker = false ∧ (matchEnd? pos (i :: body) opcodes).isSome := by
  rw [matchEnd?_isSome_iff, isMarker_eq_false_iff]
  rfl

theorem exists_startsAt_cons {i : Instruction} :
    (∃ k, StartsAt (i :: body) opcodes k) ↔ StartsAt (i :: body) opcodes 0 ∨ ∃ k, StartsAt body opcodes k := by
  constructor
  · rintro ⟨_ | k, hk⟩
    · exact .inl hk
    · exact .inr ⟨k, hk⟩
  · rintro (h | ⟨k, hk⟩)
    · exact ⟨0, h⟩
    · exact ⟨k + 1, hk⟩

theorem infix_opcodesOf_iff (hne : opcodes ≠ []) : opcodes <:+: opcodesOf body ↔ ∃ k, StartsAt body opcodes k := by
  induction body with
  | nil => simp [opcodesOf, hne, StartsAt, OpcodeAt]
  | cons i body ih =>
      rw [exists_startsAt_cons, ← ih]
      cases hi : i.opcode? with
      | none =>
          have hzero : ¬StartsAt (i :: body) opcodes 0 := by simp [StartsAt, opcodeAt_zero, hi]
          rw [opcodesOf_cons_marker hi, or_iff_right hzero]
      | some code =>
          have hzero : StartsAt (i :: body) opcodes 0 ↔ opcodes <+: code :: opcodesOf body := by
            rw [StartsAt, List.drop_zero, opcodesOf_cons_opcode hi, opcodeAt_zero, and_iff_right ⟨code, hi⟩]
          rw [opcodesOf_cons_opcode hi, List.infix_cons_iff, hzero]

theorem firstWindow?_eq_none_iff (pos : Nat) :
    firstWindow? opcodes pos body = none ↔ ¬∃ k, StartsAt body opcodes k := by
  fun_induction firstWindow? opcodes pos body with
  | case1 => simp [StartsAt, OpcodeAt]
  | case2 pos i body hmarker ih =>
      have hzero : ¬StartsAt (i :: body) opcodes 0 := by simp [startsAt_zero_iff pos, hmarker]
      rw [ih, exists_startsAt_cons, or_iff_right hzero]
  | case3 pos i body hmarker stop hstop =>
      have hzero : StartsAt (i :: body) opcodes 0 := by simp [startsAt_zero_iff pos, hmarker, hstop]
      constructor
      · intro h
        cases h
      · intro h
        exact absurd ⟨0, hzero⟩ h
  | case4 pos i body hmarker hnone ih =>
      have hzero : ¬StartsAt (i :: body) opcodes 0 := by simp [startsAt_zero_iff pos, hnone]
      rw [ih, exists_startsAt_cons, or_iff_right hzero]

/-- The pattern starts first at position `k`, and its occurrence there takes `n` instructions. -/
structure FirstAt (body : List Instruction) (opcodes : List Opcode) (k n : Nat) : Prop where
  start : OpcodeAt body k
  stop : EndsAfter (body.drop k) opcodes n
  least : ∀ j, StartsAt body opcodes j → k ≤ j

theorem FirstAt.cons {i : Instruction} {k n : Nat} (h : FirstAt body opcodes k n)
    (hi : ¬StartsAt (i :: body) opcodes 0) : FirstAt (i :: body) opcodes (k + 1) n := by
  refine ⟨h.start, h.stop, ?_⟩
  rintro (_ | j) hj
  · exact absurd hj hi
  · exact Nat.succ_le_succ (h.least j hj)

theorem firstWindow?_firstAt {pos : Nat} {w : Window} (h : firstWindow? opcodes pos body = some w) :
    ∃ k n, w = ⟨pos + k, pos + k + n⟩ ∧ FirstAt body opcodes k n := by
  fun_induction firstWindow? opcodes pos body with
  | case1 => cases h
  | case2 pos i body hmarker ih =>
      have hzero : ¬StartsAt (i :: body) opcodes 0 := by simp [startsAt_zero_iff pos, hmarker]
      obtain ⟨k, n, rfl, hfirst⟩ := ih h
      exact ⟨k + 1, n, by simp only [Nat.add_right_comm, Nat.add_assoc], hfirst.cons hzero⟩
  | case3 pos i body hmarker stop hstop =>
      obtain rfl := Option.some.inj h
      obtain ⟨n, rfl, hend⟩ := matchEnd?_endsAfter hstop
      have hop : OpcodeAt (i :: body) 0 := not_isMarker_iff.mp hmarker
      exact ⟨0, n, rfl, hop, hend, fun k _ => Nat.zero_le k⟩
  | case4 pos i body hmarker hnone ih =>
      have hzero : ¬StartsAt (i :: body) opcodes 0 := by simp [startsAt_zero_iff pos, hnone]
      obtain ⟨k, n, rfl, hfirst⟩ := ih h
      exact ⟨k + 1, n, by simp only [Nat.add_right_comm, Nat.add_assoc], hfirst.cons hzero⟩

theorem Window.slice_add (k n : Nat) (body : List Instruction) :
    (⟨k, k + n⟩ : Window).slice body = (body.drop k).take n := by
  rw [slice, List.drop_take, Nat.add_sub_cancel_left]

theorem startsAt_of_slice {w : Window} (hop : OpcodeAt body w.start) (h : opcodesOf (w.slice body) = opcodes) :
    StartsAt body opcodes w.start := by
  refine ⟨hop, ?_⟩
  rw [← h, Window.slice, List.drop_take]
  exact opcodesOf_prefix (List.take_prefix ..)

namespace FirstAt

variable {k n : Nat}

theorem stop_le (h : FirstAt body opcodes k n) (hne : opcodes ≠ []) : k + n ≤ body.length := by
  have hpos := h.stop.pos hne
  have hlength := h.stop.le_length
  rw [List.length_drop] at hlength
  omega

theorem opcodeAt_last (h : FirstAt body opcodes k n) (hne : opcodes ≠ []) : OpcodeAt body (k + n - 1) := by
  have hpos := h.stop.pos hne
  rw [Nat.add_sub_assoc hpos]
  exact opcodeAt_drop.mp (h.stop.last (n - 1) (by omega))

theorem slice_opcodes (h : FirstAt body opcodes k n) : opcodesOf ((⟨k, k + n⟩ : Window).slice body) = opcodes := by
  rw [Window.slice_add, h.stop.opcodes_eq]

theorem le_of_slice (h : FirstAt body opcodes k n) {v : Window} (hop : OpcodeAt body v.start)
    (hv : opcodesOf (v.slice body) = opcodes) : k ≤ v.start :=
  h.least v.start (startsAt_of_slice hop hv)

end FirstAt

/-! ## Scans -/

theorem scan_eq_notFound_iff : scan body opcodes = .notFound ↔ ¬opcodes <:+: opcodesOf body := by
  by_cases hne : opcodes = []
  -- The empty pattern is part of every list, and its scan does not look at the body.
  · simp [scan, hne]
  · rw [infix_opcodesOf_iff hne, ← firstWindow?_eq_none_iff 0]
    cases h : firstWindow? opcodes 0 body with
    | none => simp [scan, hne, h]
    | some w => simp [scan, hne, h]

theorem scan_ne_unscanned (body : List Instruction) (opcodes : List Opcode) : scan body opcodes ≠ .unscanned := by
  unfold scan
  split
  · nofun
  · split <;> nofun

theorem scan_firstAt {w : Window} (hne : opcodes ≠ []) (h : scan body opcodes = .found w) :
    ∃ k n, w = ⟨k, k + n⟩ ∧ FirstAt body opcodes k n := by
  cases hw : firstWindow? opcodes 0 body with
  | none => simp [scan, hne, hw] at h
  | some v =>
      obtain rfl : v = w := by simpa [scan, hne, hw] using h
      simpa using firstWindow?_firstAt hw

/-- A scan finds a pattern exactly if it is among the opcodes of the body. Its window holds the pattern, has an
opcode at either end, and starts before every other one that starts at an opcode and holds the pattern. -/
theorem scan_leftmost (body : List Instruction) (opcodes : List Opcode) (hne : opcodes ≠ []) :
    (scan body opcodes = .notFound ↔ ¬opcodes <:+: opcodesOf body) ∧
      (opcodes <:+: opcodesOf body → ∃ w, scan body opcodes = .found w ∧ w.start < w.stop ∧
        w.stop ≤ body.length ∧ OpcodeAt body w.start ∧ OpcodeAt body (w.stop - 1) ∧
        opcodesOf (w.slice body) = opcodes ∧
        ∀ v : Window, OpcodeAt body v.start → opcodesOf (v.slice body) = opcodes → w.start ≤ v.start) := by
  refine ⟨scan_eq_notFound_iff, fun hinfix => ?_⟩
  cases h : scan body opcodes with
  | unscanned => exact absurd h (scan_ne_unscanned body opcodes)
  | notFound => exact absurd hinfix (scan_eq_notFound_iff.mp h)
  | found w =>
      obtain ⟨k, n, rfl, hfirst⟩ := scan_firstAt hne h
      have hpos := hfirst.stop.pos hne
      exact ⟨_, rfl, Nat.lt_add_of_pos_right hpos, hfirst.stop_le hne, hfirst.start, hfirst.opcodeAt_last hne,
        hfirst.slice_opcodes, fun _ hop hv => hfirst.le_of_slice hop hv⟩

/-- A body in which the pattern `26 27 96` begins twice and is complete the second time only. -/
def interrupted : List Instruction :=
  [.op 26, .line 4, .op 27, .op 100, .label 1, .op 26, .op 27, .frame, .op 96, .frame]

theorem scan_interrupted :
    ([26, 27, 96] : List Opcode) ≠ [] ∧ scan interrupted [26, 27, 96] = .found ⟨5, 9⟩ ∧
      ∀ v : Window, OpcodeAt interrupted v.start → opcodesOf (v.slice interrupted) = [26, 27, 96] → 5 ≤ v.start := by
  have hne : ([26, 27, 96] : List Opcode) ≠ [] := by decide
  have hscan : scan interrupted [26, 27, 96] = .found ⟨5, 9⟩ := by decide
  obtain ⟨-, hfound⟩ := scan_leftmost interrupted [26, 27, 96] hne
  obtain ⟨w, hw, -, -, -, -, -, hleast⟩ := hfound ⟨[26, 27, 100], [], rfl⟩
  obtain rfl : ⟨5, 9⟩ = w := Scan.found.inj (hscan.symm.trans hw)
  exact ⟨hne, hscan, hleast⟩

end MethodSearch
