import Mathlib.Logic.Relation
import MethodSearch.Proofs.Pattern.Markers
import MethodSearch.Proofs.Pattern.Walk

/-!
# Counting slice by slice

A count scans the body, then the slice behind the window found, and so on. Each slice starts inside the body and behind
the one before it, so that the count ends. It finds as many windows as the body has without overlaps.
-/

namespace MethodSearch

open Bytecode

variable {body : List Instruction} {opcodes : List Opcode} {start next pos : Nat}

/-- The part of a list inside a window, where the window does not leave the list. -/
def sliceAt {α : Type} (as : List α) (w : Window) : Except OutOfRange (List α) :=
  if w.start ≤ w.stop ∧ w.stop ≤ as.length then .ok (w.slice as) else .error (.window w as.length)

theorem sliceAt_eq {α : Type} {as : List α} {w : Window} (h : w.start ≤ w.stop) (hstop : w.stop ≤ as.length) :
    sliceAt as w = .ok (w.slice as) := by
  rw [sliceAt, if_pos ⟨h, hstop⟩]

theorem Window.slice_rest {α : Type} (as : List α) (k : Nat) : (⟨k, as.length⟩ : Window).slice as = as.drop k := by
  rw [slice, List.take_length]

/-- Scans the slice from `start` on. The next one starts behind the window found. -/
def nextSlice (body : List Instruction) (opcodes : List Opcode) (start : Nat) : Except OutOfRange (Option Nat) := do
  if start < body.length then
    let rest ← sliceAt body ⟨start, body.length⟩
    match ← scanByIndex rest opcodes with
    | .found w => return some (start + w.stop)
    | _ => return none
  else return none

/-- A pass never fails. It ends where the first window from `start` on does. -/
theorem nextSlice_eq (hne : opcodes ≠ []) (body : List Instruction) (start : Nat) :
    nextSlice body opcodes start = .ok ((firstWindow? opcodes start (body.drop start)).map Window.stop) := by
  by_cases h : start < body.length
  · rw [nextSlice, if_pos h, sliceAt_eq (Nat.le_of_lt h) (Nat.le_refl _), Window.slice_rest]
    show (scanByIndex (body.drop start) opcodes >>= _) = _
    rw [scanByIndex_eq, scan_eq_of_ne_nil hne, firstWindow?_shift opcodes start]
    cases firstWindow? opcodes 0 (body.drop start) <;> rfl
  · rw [nextSlice, if_neg h, List.drop_eq_nil_of_le (Nat.le_of_not_lt h)]
    rfl

theorem nextSlice_eq_some_iff (hne : opcodes ≠ []) :
    nextSlice body opcodes start = .ok (some next) ↔
      ∃ w, firstWindow? opcodes start (body.drop start) = some w ∧ w.stop = next := by
  rw [nextSlice_eq hne, Except.ok.injEq, Option.map_eq_some_iff]

theorem nextSlice_eq_none_iff (hne : opcodes ≠ []) :
    nextSlice body opcodes start = .ok none ↔ firstWindow? opcodes start (body.drop start) = none := by
  rw [nextSlice_eq hne, Except.ok.injEq, Option.map_eq_none_iff]

theorem nextSlice_ne_error (hne : opcodes ≠ []) (e : OutOfRange) : nextSlice body opcodes start ≠ .error e := by
  rw [nextSlice_eq hne]
  nofun

/-- A pass moves on to a slice that starts later, and no later than the body ends. -/
theorem nextSlice_bounds (hne : opcodes ≠ []) (h : nextSlice body opcodes start = .ok (some next)) :
    start < next ∧ next ≤ body.length := by
  obtain ⟨w, hw, rfl⟩ := (nextSlice_eq_some_iff hne).mp h
  obtain ⟨k, n, rfl, hfirst⟩ := firstWindow?_firstAt hw
  have hpos := hfirst.stop.pos hne
  have hstop := hfirst.stop_le hne
  rw [List.length_drop] at hstop
  show start < start + k + n ∧ start + k + n ≤ body.length
  omega

/-- How many windows are found from `start` on, pass by pass. -/
def countFrom (body : List Instruction) (hne : opcodes ≠ []) (start : Nat) : Except OutOfRange Nat :=
  match h : nextSlice body opcodes start with
  | .error e => .error e
  | .ok none => .ok 0
  | .ok (some next) => (countFrom body hne next).map (· + 1)
termination_by body.length - start
decreasing_by
  have := nextSlice_bounds hne h
  omega

/-- The count with its pattern read by index and the body cut into slices. No opcodes are not counted. -/
def countByIndex (body : List Instruction) (opcodes : List Opcode) : Except OutOfRange Nat :=
  if hne : opcodes = [] then .ok 0 else countFrom body hne 0

/-- Passes lead from the one slice to the other. -/
def Reaches (body : List Instruction) (opcodes : List Opcode) : Nat → Nat → Prop :=
  Relation.ReflTransGen fun start next => nextSlice body opcodes start = .ok (some next)

theorem Reaches.le_length (hne : opcodes ≠ []) (h : Reaches body opcodes 0 start) : start ≤ body.length := by
  induction h with
  | refl => exact Nat.zero_le _
  | tail _ hstep _ => exact (nextSlice_bounds hne hstep).2

theorem exists_last_slice (hne : opcodes ≠ []) (body : List Instruction) (start : Nat) :
    ∃ last, Reaches body opcodes start last ∧ nextSlice body opcodes last = .ok none := by
  fun_induction countFrom body hne start with
  | case1 start e h => exact absurd h (nextSlice_ne_error hne e)
  | case2 start h => exact ⟨start, .refl, h⟩
  | case3 start next h ih =>
      obtain ⟨last, hreaches, hlast⟩ := ih
      exact ⟨last, .head h hreaches, hlast⟩

/-! ## Passes and windows -/

theorem windowsFrom_skip (opcodes : List Opcode) (skip pos : Nat) (body : List Instruction) :
    windowsFrom opcodes skip pos body = windowsFrom opcodes 0 (pos + skip) (body.drop skip) := by
  induction body generalizing skip pos with
  | nil => rw [List.drop_nil, windowsFrom, windowsFrom]
  | cons i body ih =>
      cases skip with
      | zero => rfl
      | succ skip => rw [windowsFrom_taken, ih, List.drop_succ_cons, Nat.add_right_comm, Nat.add_assoc]

theorem windowsFrom_of_none (h : firstWindow? opcodes pos body = none) : windowsFrom opcodes 0 pos body = [] := by
  fun_induction firstWindow? opcodes pos body with
  | case1 => rfl
  | case2 pos i body hmarker ih =>
      rw [windowsFrom_marker (isMarker_eq_true_iff.mp hmarker)]
      exact ih h
  | case3 => cases h
  | case4 pos i body hmarker hnone ih =>
      obtain ⟨code, hi⟩ := not_isMarker_iff.mp hmarker
      rw [windowsFrom_mismatch hi hnone]
      exact ih h

/-- The first window, and then those of the slice behind it. -/
theorem windowsFrom_of_some (hne : opcodes ≠ []) {w : Window} (h : firstWindow? opcodes pos body = some w) :
    ∃ n, w.stop = pos + n ∧ windowsFrom opcodes 0 pos body = w :: windowsFrom opcodes 0 w.stop (body.drop n) := by
  fun_induction firstWindow? opcodes pos body with
  | case1 => cases h
  | case2 pos i body hmarker ih =>
      obtain ⟨n, hn, hwindows⟩ := ih h
      rw [windowsFrom_marker (isMarker_eq_true_iff.mp hmarker)]
      exact ⟨n + 1, by omega, hwindows⟩
  | case3 pos i body hmarker stop hstop =>
      obtain ⟨code, hi⟩ := not_isMarker_iff.mp hmarker
      obtain rfl := Option.some.inj h
      obtain ⟨n, rfl, hend⟩ := matchEnd?_endsAfter hstop
      obtain ⟨m, rfl⟩ := Nat.exists_eq_add_one_of_ne_zero (Nat.ne_of_gt (hend.pos hne))
      refine ⟨m + 1, rfl, ?_⟩
      -- Behind its first instruction the window still takes `m`, which are those the slice leaves out.
      rw [windowsFrom_match hi hstop, windowsFrom_skip, Nat.add_sub_cancel, Nat.add_right_comm]
      rfl
  | case4 pos i body hmarker hnone ih =>
      obtain ⟨code, hi⟩ := not_isMarker_iff.mp hmarker
      obtain ⟨n, hn, hwindows⟩ := ih h
      rw [windowsFrom_mismatch hi hnone]
      exact ⟨n + 1, by omega, hwindows⟩

theorem countFrom_eq (hne : opcodes ≠ []) (body : List Instruction) (start : Nat) :
    countFrom body hne start = .ok (windowsFrom opcodes 0 start (body.drop start)).length := by
  fun_induction countFrom body hne start with
  | case1 start e h => exact absurd h (nextSlice_ne_error hne e)
  | case2 start h => rw [windowsFrom_of_none ((nextSlice_eq_none_iff hne).mp h), List.length_nil]
  | case3 start next h ih =>
      -- The pass finds the first window, and the next slice has the others.
      obtain ⟨w, hw, rfl⟩ := (nextSlice_eq_some_iff hne).mp h
      obtain ⟨n, hn, hwindows⟩ := windowsFrom_of_some hne hw
      rw [ih, hwindows, List.drop_drop, ← hn]
      rfl

/-- No count leaves the pattern or the body, and slice by slice it comes to the same number. -/
theorem countByIndex_eq (body : List Instruction) (opcodes : List Opcode) :
    countByIndex body opcodes = .ok (occurrences body opcodes) := by
  by_cases hne : opcodes = []
  · simp [countByIndex, occurrences, windows, hne]
  · simp [countByIndex, occurrences, windows, hne, countFrom_eq]

end MethodSearch
