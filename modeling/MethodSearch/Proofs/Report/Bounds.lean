import MethodSearch.Proofs.Pattern.Slices
import MethodSearch.Proofs.Resolution.Schedules
import MethodSearch.Proofs.Signature.Checks
import MethodSearch.Report.Print

/-!
# Windows stay in their bodies

A scan finds windows inside the body it scans, and a search stores each of them with the method of that body. A report
that cuts the windows out of the stored bodies therefore never fails, whatever signatures it is made for.
-/

namespace MethodSearch

open Bytecode

variable {body : List Instruction} {opcodes : List Opcode} {s : Signature} {m : Method} {l : Location} {w : Window}

/-- The window lies in the body, and is empty only as the placeholder. -/
structure Window.LiesIn (w : Window) (body : List Instruction) : Prop where
  start_le : w.start ≤ w.stop
  stop_le : w.stop ≤ body.length
  empty : w.start = w.stop → w = .placeholder

theorem Window.placeholder_liesIn (body : List Instruction) : Window.placeholder.LiesIn body :=
  ⟨Nat.le_refl 0, Nat.zero_le _, fun _ => rfl⟩

theorem FirstAt.liesIn {k n : Nat} (h : FirstAt body opcodes k n) (hne : opcodes ≠ []) :
    (⟨k, k + n⟩ : Window).LiesIn body := by
  have hpos := h.stop.pos hne
  refine ⟨Nat.le_add_right k n, h.stop_le hne, ?_⟩
  intro hempty
  exact absurd hempty (Nat.ne_of_lt (Nat.lt_add_of_pos_right hpos))

theorem scan_liesIn (h : scan body opcodes = .found w) : w.LiesIn body := by
  by_cases hne : opcodes = []
  · obtain rfl : .placeholder = w := by simpa [scan, hne] using h
    exact Window.placeholder_liesIn body
  · obtain ⟨k, n, rfl, hfirst⟩ := scan_firstAt hne h
    exact hfirst.liesIn hne

theorem Signature.compare_liesIn (h : s.compare m = .ok (.found w)) : w.LiesIn m.body := by
  cases hp : s.opcodes with
  | any => cases unscanned_of_compare h hp
  | exactly p => exact scan_liesIn (scan_of_compare h hp).1

/-- A window that was found lies in the body of the method it is kept with. -/
def Location.InRange (l : Location) : Prop :=
  ∀ w, l.scan = .found w → w.LiesIn l.method.body

namespace LocationMap

def InRange (map : LocationMap) : Prop :=
  ∀ name l, (name, l) ∈ map.entries → l.InRange

variable {map : LocationMap}

theorem empty_inRange : empty.InRange := nofun

theorem InRange.find? (h : map.InRange) {name : String} (hfind : map.find? name = some l) : l.InRange := by
  obtain ⟨e, he, rfl⟩ := Option.map_eq_some_iff.mp hfind
  exact h e.1 e.2 (List.mem_of_find?_eq_some he)

theorem InRange.insert (h : map.InRange) (hl : l.InRange) (name : String) : (map.insert name l).InRange := by
  by_cases hname : map.contains name
  · rw [insert_of_contains hname]
    exact h
  · intro name' l' hmem
    rw [insert_entries_of_not_contains hname, List.mem_append, List.mem_singleton] at hmem
    rcases hmem with hmem | ⟨⟨⟩⟩
    · exact h name' l' hmem
    · exact hl

theorem InRange.record (h : map.InRange) (t : Trial) :
    (map.record t (t.signature.compare t.method)).InRange := by
  cases hcompare : t.signature.compare t.method with
  | error reason => exact h
  | ok found =>
      refine h.insert ?_ t.signature.name
      rintro w rfl
      exact Signature.compare_liesIn hcompare

theorem InRange.tryAll (h : map.InRange) (ts : List Trial) : (MethodSearch.tryAll map ts).map.InRange := by
  induction ts generalizing map with
  | nil => exact h
  | cons t ts ih =>
      rw [MethodSearch.tryAll]
      -- A trial that is left out stores nothing.
      split
      · exact ih h
      · exact ih (h.record t)

end LocationMap

theorem resolve_inRange (strategy : Strategy) (classes : List JavaClass) (signatures : List Signature) :
    (resolve strategy classes signatures).map.InRange := by
  rw [resolve_map]
  exact LocationMap.empty_inRange.tryAll _

/-! ## Reports by index -/

/-- The instructions of the window, cut out of the body and written out. -/
def Location.excerptByIndex (l : Location) : Except OutOfRange (List String) :=
  match l.window? with
  | some w => (sliceAt l.method.body w).map fun instructions => instructions.map Instruction.render
  | none => .ok []

/-- How often the pattern occurs, counted by index. -/
def Signature.occurrencesByIndex (s : Signature) (body : List Instruction) : Except OutOfRange (Option Nat) :=
  match s.opcodes with
  | .exactly p => (countByIndex body p.opcodes).map some
  | .any => .ok none

def ReportEntry.ofLocationByIndex (s : Signature) (l : Location) : Except OutOfRange ReportEntry := do
  let instructions ← l.excerptByIndex
  let occurrences ← s.occurrencesByIndex l.method.body
  return { ofLocation s l with instructions, occurrences }

/-- The entries of the signatures that were found, one after another. -/
def Report.entriesByIndex (map : LocationMap) : List Signature → Except OutOfRange (List ReportEntry)
  | [] => .ok []
  | s :: signatures =>
      match map.find? s.name with
      | none => entriesByIndex map signatures
      | some l => do
          let entry ← ReportEntry.ofLocationByIndex s l
          let entries ← entriesByIndex map signatures
          return entry :: entries

theorem Location.InRange.excerptByIndex_eq (h : l.InRange) (s : Signature) :
    l.excerptByIndex = .ok (ReportEntry.ofLocation s l).instructions := by
  rw [Location.excerptByIndex, ReportEntry.ofLocation]
  cases hw : l.window? with
  | none => rfl
  | some w =>
      have hlies := h w (Scan.window?_eq_some_iff.mp hw)
      simp only [sliceAt_eq hlies.start_le hlies.stop_le, Except.map]

theorem Signature.occurrencesByIndex_eq (s : Signature) (l : Location) :
    s.occurrencesByIndex l.method.body = .ok (ReportEntry.ofLocation s l).occurrences := by
  rw [Signature.occurrencesByIndex, ReportEntry.ofLocation]
  cases s.opcodes with
  | any => rfl
  | exactly p => simp only [countByIndex_eq, Except.map, Constraint.value?, Option.map_some]

theorem ReportEntry.ofLocationByIndex_eq (h : l.InRange) (s : Signature) :
    ofLocationByIndex s l = .ok (ofLocation s l) := by
  rw [ofLocationByIndex, h.excerptByIndex_eq s, s.occurrencesByIndex_eq l]
  rfl

theorem Report.entriesByIndex_eq {map : LocationMap} (h : map.InRange) (signatures : List Signature) :
    entriesByIndex map signatures = .ok (entries map signatures) := by
  induction signatures with
  | nil => rfl
  | cons s signatures ih =>
      rw [entriesByIndex, entries, List.filterMap_cons]
      cases hfind : map.find? s.name with
      | none => exact ih
      | some l =>
          show (ReportEntry.ofLocationByIndex s l >>= _) = _
          rw [ReportEntry.ofLocationByIndex_eq (h.find? hfind)]
          show (entriesByIndex map signatures >>= _) = _
          rw [ih]
          rfl

/-- From the search to the report no index leaves its list. Scans and counts that read by index never fail, nor do the
entries of a report on the map of a search, whatever the signatures. The windows in the map lie in the bodies they are
kept with. The slices of a count start inside the body, each behind the one before it, and there is a last one. -/
theorem indices_in_range (strategy : Strategy) (classes : List JavaClass) (signatures others : List Signature) :
    let map := (resolve strategy classes signatures).map
    (∀ body opcodes, scanByIndex body opcodes = .ok (scan body opcodes)) ∧
      (∀ name l w, (name, l) ∈ map.entries → l.scan = .found w →
        w.start ≤ w.stop ∧ w.stop ≤ l.method.body.length ∧ (w.start = w.stop → w = ⟨0, 0⟩)) ∧
      Report.entriesByIndex map others = .ok (Report.build map others).resolved ∧
      (∀ body opcodes, countByIndex body opcodes = .ok (occurrences body opcodes)) ∧
      ∀ body opcodes, opcodes ≠ [] →
        (∀ start, Reaches body opcodes 0 start → start ≤ body.length ∧
          ∀ next, nextSlice body opcodes start = .ok (some next) → start < next) ∧
        ∃ last, Reaches body opcodes 0 last ∧ nextSlice body opcodes last = .ok none := by
  intro map
  have hrange : map.InRange := resolve_inRange strategy classes signatures
  refine ⟨scanByIndex_eq, ?_, Report.entriesByIndex_eq hrange others, countByIndex_eq, ?_⟩
  · intro name l w hmem hw
    have hlies := hrange name l hmem w hw
    exact ⟨hlies.start_le, hlies.stop_le, hlies.empty⟩
  · intro body opcodes hne
    refine ⟨fun start hreaches => ⟨hreaches.le_length hne, ?_⟩, exists_last_slice hne body 0⟩
    intro next hnext
    exact (nextSlice_bounds hne hnext).1

end MethodSearch
