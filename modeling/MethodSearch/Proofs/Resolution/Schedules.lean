import MethodSearch.Proofs.Resolution.Entries

/-!
# The order of the work does not matter

Results are kept at the places of their jobs, so a schedule does not show in them. Trials made beforehand are gone
through in the order in which they would have been made, and leave the same search behind.
-/

namespace MethodSearch

open Bytecode

namespace Schedule

variable {α : Type} {n : Nat} {job : Nat → Option α}

theorem foldl_fill_length (order : List Nat) (slots : List (Option α)) :
    (order.foldl (fill job) slots).length = slots.length := by
  induction order generalizing slots with
  | nil => rfl
  | cons i order ih => rw [List.foldl_cons, ih, fill, List.length_set]

/-- A slot has the result of its job once the job is done, and is untouched before. -/
theorem foldl_fill_getElem? (order : List Nat) (slots : List (Option α)) {j : Nat} (hj : j < slots.length) :
    (order.foldl (fill job) slots)[j]? = if j ∈ order then some (job j) else slots[j]? := by
  induction order generalizing slots with
  | nil => simp
  | cons i order ih =>
      have hlen : j < (fill job slots i).length := by simpa [fill] using hj
      rw [List.foldl_cons, ih _ hlen, fill, List.getElem?_set]
      by_cases hi : i = j
      · simp [hi, hj]
      · simp [hi, Ne.symm hi]

theorem foldl_fill_replicate (s : Schedule n) (job : Nat → Option α) :
    s.order.foldl (fill job) (List.replicate n none) = (List.range n).map job := by
  apply List.ext_getElem?
  intro j
  by_cases hj : j < n
  · have hmem : j ∈ s.order := s.perm.mem_iff.mpr (List.mem_range.mpr hj)
    rw [foldl_fill_getElem? _ _ (by simpa using hj), if_pos hmem]
    simp [hj]
  · rw [List.getElem?_eq_none, List.getElem?_eq_none]
    · simpa using hj
    · simpa [foldl_fill_length] using hj

/-- The results come in the order of the jobs. -/
theorem run_eq_filterMap (s : Schedule n) (job : Nat → Option α) : s.run job = (List.range n).filterMap job := by
  rw [run, foldl_fill_replicate, List.filterMap_map]
  rfl

theorem run_getElem? {β : Type} (as : List β) (f : β → α) (s : Schedule as.length) :
    (s.run fun i => as[i]?.map f) = as.map f := by
  have h : (List.range as.length).map (as[·]?) = as.map some := by
    apply List.ext_getElem
    · simp
    · intro i hi hi'
      simp
  have hjobs : (List.range as.length).filterMap (fun i => as[i]?.map f) =
      ((List.range as.length).map (as[·]?)).filterMap (Option.map f) := by
    rw [List.filterMap_map]
    rfl
  rw [run_eq_filterMap, hjobs, h, List.filterMap_map, ← List.filterMap_eq_map]
  rfl

end Schedule

/-! ## Trials made beforehand -/

variable {classes : List JavaClass} {signatures : List Signature}

theorem outcomeTable_eq (s : Schedule classes.length) :
    outcomeTable classes signatures s = classes.map (outcomes signatures) :=
  s.run_getElem? classes _

theorem zip_map_self {α β : Type} (f : α → β) (as : List α) : as.zip (as.map f) = as.map fun a => (a, f a) := by
  induction as with
  | nil => rfl
  | cons a as ih => simp [ih]

theorem withOutcomes_outcomes :
    withOutcomes classes signatures (classes.map (outcomes signatures)) =
      (trials classes signatures).map fun t => (t, t.signature.compare t.method) := by
  simp only [withOutcomes, outcomes, trials, zip_map_self, List.flatMap_map, List.map_flatMap, List.map_map,
    Function.comp_def]

theorem mergeAll_map (m : LocationMap) (ts : List Trial) :
    mergeAll m (ts.map fun t => (t, t.signature.compare t.method)) = tryAll m ts := by
  induction ts generalizing m with
  | nil => rfl
  | cons t ts ih =>
      by_cases h : m.contains t.signature.name
      · simp [mergeAll, tryAll, h, ih]
      · simp [mergeAll, tryAll, h, ih]

theorem searchBeforehand_eq (s : Schedule classes.length) :
    searchBeforehand classes signatures s = searchInOrder classes signatures := by
  rw [searchBeforehand, outcomeTable_eq, withOutcomes_outcomes, mergeAll_map, searchInOrder]

theorem resolve_eq_sequential (strategy : Strategy) :
    resolve strategy classes signatures = resolve .sequential classes signatures := by
  cases strategy with
  | sequential => rfl
  | parallel workers => simp only [resolve, searchBeforehand_eq]

theorem resolve_map (strategy : Strategy) :
    (resolve strategy classes signatures).map = (searchInOrder classes signatures).map := by
  rw [resolve_eq_sequential]
  rfl

/-- Whatever the order in which the classes are compared beforehand and whatever the number of workers, the search
leaves the same entries in the same order, the same names without an entry and the same records. -/
theorem parallel_search_eq (classes : List JavaClass) (signatures : List Signature) (workers : Nat)
    (order : Schedule classes.length) :
    let ordered := resolve .sequential classes signatures
    let scheduled := (searchBeforehand classes signatures order).finish signatures
    scheduled.map = ordered.map ∧
      scheduled.map.unresolved signatures = ordered.map.unresolved signatures ∧
      scheduled.events.map Event.record = ordered.events.map Event.record ∧
      resolve (.parallel workers) classes signatures = ordered := by
  have h : (searchBeforehand classes signatures order).finish signatures =
      resolve .sequential classes signatures := by
    rw [searchBeforehand_eq, resolve]
  intro ordered scheduled
  refine ⟨congrArg Search.map h, ?_, ?_, resolve_eq_sequential _⟩
  · exact congrArg (fun s => s.map.unresolved signatures) h
  · exact congrArg (fun s => s.events.map Event.record) h

end MethodSearch
