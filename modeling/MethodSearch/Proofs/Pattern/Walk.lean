import MethodSearch.Proofs.Pattern.Rank

/-!
# Scans by index

A walk holds an index into the pattern and moves it on at each opcode that is met. The index stays inside the pattern,
so that a scan made of walks never fails, and finds what the scan finds. The plain scan walks from every instruction,
markers among them. It finds the same occurrence, with the markers in front of it.
-/

namespace MethodSearch

open Bytecode

/-- What a list does not have: an index, or one of the ends of a window. -/
inductive OutOfRange where
  | index (k length : Nat)
  | window (w : Window) (length : Nat)
  deriving Repr, DecidableEq

def readAt {α : Type} (as : List α) (k : Nat) : Except OutOfRange α :=
  match as[k]? with
  | some a => .ok a
  | none => .error (.index k as.length)

/-- Goes on from `pos` where `offset` opcodes are met already. Gives the position behind the last of them. -/
def walk (opcodes : List Opcode) (offset pos : Nat) : List Instruction → Except OutOfRange (Option Nat)
  | [] => .ok none
  | i :: body =>
      match i.opcode? with
      | none => walk opcodes offset (pos + 1) body
      | some code => do
          let expected ← readAt opcodes offset
          if code = expected then
            if offset + 1 = opcodes.length then return some (pos + 1)
            else walk opcodes (offset + 1) (pos + 1) body
          else return none

/-- The window of the first walk that meets the whole pattern. No walk starts at an instruction that is passed. -/
def firstWalk (passes : Instruction → Bool) (opcodes : List Opcode) (pos : Nat) :
    List Instruction → Except OutOfRange (Option Window)
  | [] => .ok none
  | i :: body =>
      if passes i then firstWalk passes opcodes (pos + 1) body
      else do
        match ← walk opcodes 0 pos (i :: body) with
        | some stop => return some ⟨pos, stop⟩
        | none => firstWalk passes opcodes (pos + 1) body

/-- The scan with its pattern read by index. -/
def scanByIndex (body : List Instruction) (opcodes : List Opcode) : Except OutOfRange Scan := do
  if opcodes.isEmpty then return .found .placeholder
  else
    match ← firstWalk Instruction.isMarker opcodes 0 body with
    | some w => return .found w
    | none => return .notFound

/-- Walks from every instruction until one meets the whole pattern. -/
def plainScan (body : List Instruction) (opcodes : List Opcode) : Except OutOfRange (Option Window) :=
  firstWalk (fun _ => false) opcodes 0 body

variable {body : List Instruction} {i : Instruction} {opcodes : List Opcode} {offset pos stop : Nat}

theorem readAt_of_lt {α : Type} {as : List α} {k : Nat} (h : k < as.length) : readAt as k = .ok as[k] := by
  rw [readAt, List.getElem?_eq_getElem h]

/-- A walk that starts inside the pattern stays there, and ends where the rest of the pattern ends. -/
theorem walk_eq (h : offset < opcodes.length) (pos : Nat) (body : List Instruction) :
    walk opcodes offset pos body = .ok (matchEnd? pos body (opcodes.drop offset)) := by
  induction body generalizing offset pos with
  | nil => rw [walk, List.drop_eq_getElem_cons h, matchEnd?]
  | cons i body ih =>
      rw [walk, List.drop_eq_getElem_cons h, matchEnd?]
      cases i.opcode? with
      | none =>
          rw [← List.drop_eq_getElem_cons h]
          exact ih h (pos + 1)
      | some code =>
          simp only [readAt_of_lt h, bind, Except.bind]
          by_cases hcode : code = opcodes[offset]
          · rw [if_pos hcode, if_pos hcode]
            -- The walk is over at the last opcode, so that the index moves on inside the pattern only.
            by_cases hlast : offset + 1 = opcodes.length
            · rw [if_pos hlast, hlast, List.drop_length, matchEnd?]
              rfl
            · rw [if_neg hlast]
              exact ih (by omega) (pos + 1)
          · rw [if_neg hcode, if_neg hcode]
            rfl

section FirstWalk

variable {passes : Instruction → Bool}

theorem firstWalk_passed (hi : passes i) :
    firstWalk passes opcodes pos (i :: body) = firstWalk passes opcodes (pos + 1) body := by
  rw [firstWalk, if_pos hi]

theorem firstWalk_met (hne : opcodes ≠ []) (hi : ¬passes i) (h : matchEnd? pos (i :: body) opcodes = some stop) :
    firstWalk passes opcodes pos (i :: body) = .ok (some ⟨pos, stop⟩) := by
  rw [firstWalk, if_neg hi, walk_eq (List.length_pos_iff.mpr hne), List.drop_zero, h]
  rfl

theorem firstWalk_missed (hne : opcodes ≠ []) (hi : ¬passes i) (h : matchEnd? pos (i :: body) opcodes = none) :
    firstWalk passes opcodes pos (i :: body) = firstWalk passes opcodes (pos + 1) body := by
  rw [firstWalk, if_neg hi, walk_eq (List.length_pos_iff.mpr hne), List.drop_zero, h]
  rfl

end FirstWalk

theorem firstWalk_isMarker (hne : opcodes ≠ []) (pos : Nat) (body : List Instruction) :
    firstWalk Instruction.isMarker opcodes pos body = .ok (firstWindow? opcodes pos body) := by
  fun_induction firstWindow? opcodes pos body with
  | case1 => rw [firstWalk]
  | case2 pos i body hmarker ih => rw [firstWalk_passed hmarker, ih]
  | case3 pos i body hmarker stop hstop => rw [firstWalk_met hne hmarker hstop]
  | case4 pos i body hmarker hnone ih => rw [firstWalk_missed hne hmarker hnone, ih]

/-- No scan reads its pattern out of range, and by index it finds the same. -/
theorem scanByIndex_eq (body : List Instruction) (opcodes : List Opcode) :
    scanByIndex body opcodes = .ok (scan body opcodes) := by
  by_cases hne : opcodes = []
  -- The empty pattern has no index to read, and the scan does not look for it.
  · rw [scanByIndex, scan, if_pos (List.isEmpty_iff.mpr hne), if_pos (List.isEmpty_iff.mpr hne)]
    rfl
  · have hempty : ¬opcodes.isEmpty := fun h => hne (List.isEmpty_iff.mp h)
    rw [scanByIndex, scan, if_neg hempty, if_neg hempty, firstWalk_isMarker hne]
    cases firstWindow? opcodes 0 body <;> rfl

/-! ## The plain scan -/

/-- The first opcode stands `d` instructions on. -/
structure FirstOpcode (body : List Instruction) (d : Nat) : Prop where
  opcode : OpcodeAt body d
  markers : ∀ k < d, ¬OpcodeAt body k

namespace FirstOpcode

variable {d : Nat} {code : Opcode}

theorem zero (hi : i.opcode? = some code) (body : List Instruction) : FirstOpcode (i :: body) 0 :=
  ⟨opcodeAt_zero.mpr ⟨code, hi⟩, nofun⟩

theorem marker (h : FirstOpcode body d) (hi : i.opcode? = none) : FirstOpcode (i :: body) (d + 1) := by
  refine ⟨opcodeAt_succ.mpr h.opcode, ?_⟩
  rintro (_ | k) hk hop
  · obtain ⟨code, hcode⟩ := opcodeAt_zero.mp hop
    cases hi.symm.trans hcode
  · exact h.markers k (Nat.lt_of_succ_lt_succ hk) (opcodeAt_succ.mp hop)

end FirstOpcode

theorem matchEnd?_marker (hne : opcodes ≠ []) (hi : i.opcode? = none) :
    matchEnd? pos (i :: body) opcodes = matchEnd? (pos + 1) body opcodes := by
  obtain ⟨p, ps, rfl⟩ := List.exists_cons_of_ne_nil hne
  rw [matchEnd?, hi]

/-- Where a walk meets the pattern, the scan finds it from the first opcode on. -/
theorem firstWindow?_of_matchEnd? (hne : opcodes ≠ []) (h : matchEnd? pos body opcodes = some stop) :
    ∃ d, firstWindow? opcodes pos body = some ⟨pos + d, stop⟩ ∧ FirstOpcode body d := by
  induction body generalizing pos with
  | nil =>
      obtain ⟨p, ps, rfl⟩ := List.exists_cons_of_ne_nil hne
      cases h
  | cons i body ih =>
      cases hi : i.opcode? with
      | none =>
          rw [matchEnd?_marker hne hi] at h
          obtain ⟨d, hd, hfirst⟩ := ih h
          refine ⟨d + 1, ?_, hfirst.marker hi⟩
          rw [firstWindow?, if_pos (isMarker_eq_true_iff.mpr hi), hd, Nat.add_right_comm, Nat.add_assoc]
      | some code =>
          have hmarker : i.isMarker = false := isMarker_eq_false_iff.mpr ⟨code, hi⟩
          refine ⟨0, ?_, .zero hi body⟩
          simp [firstWindow?, hmarker, h]

/-- The plain scan starts `a` instructions on, and the scan `d` behind it at the first opcode. Both end together. -/
inductive Trims (pos : Nat) (body : List Instruction) : Option Window → Option Window → Prop where
  | none : Trims pos body none none
  | some {a d stop : Nat} :
      FirstOpcode (body.drop a) d → Trims pos body (some ⟨pos + a, stop⟩) (some ⟨pos + a + d, stop⟩)

theorem Trims.cons {v w : Option Window} (h : Trims (pos + 1) body v w) : Trims pos (i :: body) v w := by
  cases h with
  | none => exact .none
  | @some a d stop hfirst =>
      rw [Nat.add_right_comm pos 1 a]
      exact .some (a := a + 1) hfirst

theorem firstWalk_trims (hne : opcodes ≠ []) (pos : Nat) (body : List Instruction) :
    ∃ v, firstWalk (fun _ => false) opcodes pos body = .ok v ∧ Trims pos body v (firstWindow? opcodes pos body) := by
  induction body generalizing pos with
  | nil => exact ⟨none, rfl, .none⟩
  | cons i body ih =>
      cases hend : matchEnd? pos (i :: body) opcodes with
      | some stop =>
          -- The walk may start at a marker, from which the scan does not walk. It then does from the next opcode.
          obtain ⟨d, hd, hfirst⟩ := firstWindow?_of_matchEnd? hne hend
          rw [hd]
          exact ⟨_, firstWalk_met hne (by simp) hend, .some (a := 0) hfirst⟩
      | none =>
          obtain ⟨v, hv, htrims⟩ := ih (pos + 1)
          have hskip : firstWindow? opcodes pos (i :: body) = firstWindow? opcodes (pos + 1) body := by
            simp [firstWindow?, hend]
          rw [hskip]
          exact ⟨v, (firstWalk_missed hne (by simp) hend).trans hv, htrims.cons⟩

theorem scan_eq_of_ne_nil (hne : opcodes ≠ []) :
    scan body opcodes = ((firstWindow? opcodes 0 body).map Scan.found).getD .notFound := by
  rw [scan, if_neg fun h => hne (List.isEmpty_iff.mp h)]
  cases firstWindow? opcodes 0 body <;> rfl

/-- The plain scan finds a pattern exactly if the scan does. They find the same occurrence: both end behind its last
opcode, and the scan starts at the first opcode at or behind the start of the other. -/
theorem plainScan_trimmed (body : List Instruction) (opcodes : List Opcode) (hne : opcodes ≠ []) :
    (∃ found, plainScan body opcodes = .ok found) ∧
      (scan body opcodes = .notFound ↔ plainScan body opcodes = .ok none) ∧
      ∀ v, plainScan body opcodes = .ok (some v) →
        ∃ s, scan body opcodes = .found ⟨s, v.stop⟩ ∧ v.start ≤ s ∧ OpcodeAt body s ∧
          ∀ k, v.start ≤ k → k < s → ¬OpcodeAt body k := by
  obtain ⟨found, hplain, htrims⟩ := firstWalk_trims hne 0 body
  rw [← plainScan] at hplain
  rw [scan_eq_of_ne_nil hne, hplain]
  refine ⟨⟨found, rfl⟩, ?_⟩
  generalize firstWindow? opcodes 0 body = window at htrims
  cases htrims with
  | none => exact ⟨iff_of_true rfl rfl, nofun⟩
  | @some a d stop hfirst =>
      refine ⟨iff_of_false nofun nofun, ?_⟩
      rintro v ⟨⟩
      simp only [Nat.zero_add]
      refine ⟨a + d, rfl, Nat.le_add_right a d, opcodeAt_drop.mp hfirst.opcode, ?_⟩
      intro k hk hlt hop
      obtain ⟨j, rfl⟩ := Nat.exists_eq_add_of_le hk
      exact hfirst.markers j (Nat.lt_of_add_lt_add_left hlt) (opcodeAt_drop.mpr hop)

/-- A body that begins with markers and breaks the pattern off once before it is complete. -/
def ledByMarkers : List Instruction :=
  [.label 0, .op 26, .line 4, .op 100, .line 5, .frame, .op 26, .label 1, .op 27, .line 6]

theorem plainScan_ledByMarkers :
    ([26, 27] : List Opcode) ≠ [] ∧ plainScan ledByMarkers [26, 27] = .ok (some ⟨4, 9⟩) ∧
      ∃ s, scan ledByMarkers [26, 27] = .found ⟨s, 9⟩ ∧ 4 ≤ s ∧ OpcodeAt ledByMarkers s ∧
        ∀ k, 4 ≤ k → k < s → ¬OpcodeAt ledByMarkers k := by
  have hne : ([26, 27] : List Opcode) ≠ [] := by decide
  have hplain : plainScan ledByMarkers [26, 27] = .ok (some ⟨4, 9⟩) := by rfl
  obtain ⟨-, -, htrimmed⟩ := plainScan_trimmed ledByMarkers [26, 27] hne
  exact ⟨hne, hplain, htrimmed _ hplain⟩

end MethodSearch
