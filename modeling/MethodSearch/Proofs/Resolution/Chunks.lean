import MethodSearch.Proofs.Resolution.Schedules

/-!
# Searching in chunks

Classes may be searched in chunks. The entries of the chunks, entered one chunk after another, make the map of the
whole, although a chunk searched alone makes trials that the whole search leaves out.
-/

namespace MethodSearch

open Bytecode

namespace LocationMap

theorem insertAll_firsts (m : LocationMap) (es : List (String × Location)) :
    m.insertAll (firsts (·.1) es) = m.insertAll es := by
  have h : (m.insertAll (firsts (·.1) es)).entries = (m.insertAll es).entries := by
    rw [insertAll_entries, insertAll_entries, firsts_of_nodup (firsts_names_nodup es)]
  exact congrArg mk h

end LocationMap

variable {as bs : List JavaClass} {signatures : List Signature}

theorem trials_append : trials (as ++ bs) signatures = trials as signatures ++ trials bs signatures :=
  List.flatMap_append

/-- Entering the entries of a search does what entering all its successes does. -/
theorem insertAll_searchInOrder_entries (m : LocationMap) :
    m.insertAll (searchInOrder as signatures).map.entries =
      m.insertAll ((trials as signatures).filterMap Trial.entry?) := by
  rw [searchInOrder_entries, LocationMap.insertAll_firsts]

theorem searchInOrder_append_map :
    (searchInOrder (as ++ bs) signatures).map =
      (searchInOrder as signatures).map.insertAll (searchInOrder bs signatures).map.entries := by
  rw [insertAll_searchInOrder_entries, searchInOrder, searchInOrder, tryAll_map, tryAll_map, trials_append,
    List.filterMap_append, LocationMap.insertAll_append]

theorem searchInOrder_append_entries :
    (searchInOrder (as ++ bs) signatures).map.entries =
      (searchInOrder as signatures).map.entries ++
        (searchInOrder bs signatures).map.entries.filter
          fun e => !(searchInOrder as signatures).map.contains e.1 := by
  have hfirsts : firsts (·.1) (searchInOrder bs signatures).map.entries =
      (searchInOrder bs signatures).map.entries := by
    rw [searchInOrder_entries]
    exact firsts_of_nodup (firsts_names_nodup _)
  rw [searchInOrder_append_map, LocationMap.insertAll_entries, hfirsts]

/-- More classes add their own entries behind those already there, but for the names that are taken. The map is also
what the entries of both chunks make, entered one after another. -/
theorem resolve_append_map (strategy : Strategy) (as bs : List JavaClass) (signatures : List Signature) :
    let first := (resolve strategy as signatures).map
    let second := (resolve strategy bs signatures).map
    let whole := (resolve strategy (as ++ bs) signatures).map
    whole.entries = first.entries ++ second.entries.filter (fun e => !first.contains e.1) ∧
      whole = (LocationMap.empty.insertAll first.entries).insertAll second.entries := by
  have hfirst : LocationMap.empty.insertAll (searchInOrder as signatures).map.entries =
      (searchInOrder as signatures).map := by
    rw [insertAll_searchInOrder_entries, searchInOrder, tryAll_map]
  simp only [resolve_map]
  refine ⟨searchInOrder_append_entries, ?_⟩
  rw [hfirst]
  exact searchInOrder_append_map

end MethodSearch
