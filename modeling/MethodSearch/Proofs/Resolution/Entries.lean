import MethodSearch.Resolution.Resolve

/-!
# What a search enters

A search enters the trials that succeed, one after another, and an entry is dropped where its name is taken. The
map it leaves holds the first entry of each name, in the order in which they came.
-/

namespace MethodSearch

open Bytecode

section Firsts

variable {α β : Type} {name : α → String}

/-- The elements whose name no earlier element has. -/
def firsts (name : α → String) : List α → List α
  | [] => []
  | a :: as => a :: (firsts name as).filter fun b => name b != name a

theorem firsts_sublist (as : List α) : (firsts name as).Sublist as := by
  induction as with
  | nil => exact .slnil
  | cons a as ih => exact (List.filter_sublist.trans ih).cons_cons a

theorem firsts_names_nodup (as : List α) : ((firsts name as).map name).Nodup := by
  induction as with
  | nil => exact .nil
  | cons a as ih =>
      rw [firsts, List.map_cons, List.nodup_cons]
      refine ⟨?_, (List.filter_sublist.map name).nodup ih⟩
      intro h
      obtain ⟨b, hb, he⟩ := List.mem_map.mp h
      simp [he] at hb

theorem exists_mem_firsts (name : α → String) {as : List α} {b : α} (h : b ∈ as) :
    ∃ a ∈ firsts name as, name a = name b := by
  induction as with
  | nil => cases h
  | cons c as ih =>
      by_cases he : name b = name c
      · exact ⟨c, List.mem_cons_self, he.symm⟩
      · have hb : b ∈ as := (List.mem_cons.mp h).resolve_left fun hc => he (by rw [hc])
        obtain ⟨a, ha, hn⟩ := ih hb
        exact ⟨a, List.mem_cons_of_mem _ (List.mem_filter.mpr ⟨ha, by simp [hn, he]⟩), hn⟩

/-- Where the elements stand in some order, the first of a name precedes the others of that name. -/
theorem firsts_earliest {R : α → α → Prop} {as : List α} (hr : as.Pairwise R) {a b : α}
    (ha : a ∈ firsts name as) (hb : b ∈ as) (hn : name b = name a) : b = a ∨ R a b := by
  induction as with
  | nil => cases hb
  | cons c as ih =>
      rw [List.pairwise_cons] at hr
      rcases List.mem_cons.mp ha with rfl | ha
      · exact (List.mem_cons.mp hb).imp_right (hr.1 b)
      · obtain ⟨ha, hne⟩ := List.mem_filter.mp ha
        rcases List.mem_cons.mp hb with rfl | hb
        · simp [hn] at hne
        · exact ih hr.2 ha hb

theorem firsts_map (f : β → α) (bs : List β) :
    firsts name (bs.map f) = (firsts (fun b => name (f b)) bs).map f := by
  induction bs with
  | nil => rfl
  | cons b bs ih => simp only [List.map_cons, firsts, ih, List.filter_map]; rfl

theorem firsts_of_nodup {as : List α} (h : (as.map name).Nodup) : firsts name as = as := by
  induction as with
  | nil => rfl
  | cons a as ih =>
      rw [List.map_cons, List.nodup_cons] at h
      rw [firsts, ih h.2, List.filter_eq_self.mpr]
      intro b hb
      have hne : name b ≠ name a := fun he => h.1 (he ▸ List.mem_map_of_mem hb)
      simpa using hne

end Firsts

/-! ## Entering into the map -/

namespace LocationMap

theorem contains_iff {m : LocationMap} {name : String} : m.contains name = true ↔ name ∈ m.names := by
  simp [contains, names]

theorem insert_of_contains {m : LocationMap} {name : String} (h : m.contains name) (l : Location) :
    m.insert name l = m := by
  simp [insert, h]

theorem insert_entries_of_not_contains {m : LocationMap} {name : String} (h : ¬m.contains name) (l : Location) :
    (m.insert name l).entries = m.entries ++ [(name, l)] := by
  simp [insert, h]

theorem contains_insert (m : LocationMap) (name : String) (l : Location) (n : String) :
    (m.insert name l).contains n = (m.contains n || name == n) := by
  by_cases h : m.contains name
  · rw [insert_of_contains h]
    by_cases he : name = n
    · rw [he] at h
      simp [h]
    · simp [he]
  · rw [contains, insert_entries_of_not_contains h]
    simp [contains]

theorem find?_eq_some_iff {m : LocationMap} (h : m.names.Nodup) {name : String} {l : Location} :
    m.find? name = some l ↔ (name, l) ∈ m.entries := by
  obtain ⟨es⟩ := m
  simp only [names, find?] at h ⊢
  induction es with
  | nil => simp
  | cons e es ih =>
      rw [List.map_cons, List.nodup_cons] at h
      by_cases he : e.1 = name
      · subst he
        have hne : ∀ l, (e.1, l) ∉ es := fun l hl => h.1 (List.mem_map_of_mem (f := (·.1)) hl)
        simp [Prod.ext_iff, hne, eq_comm]
      · have hne : (name, l) ≠ e := fun hl => he (by rw [← hl])
        simp [he, hne, ih h.2]

/-- Enters one after another. -/
def insertAll (m : LocationMap) (es : List (String × Location)) : LocationMap :=
  es.foldl (fun m e => m.insert e.1 e.2) m

theorem insertAll_append (m : LocationMap) (es fs : List (String × Location)) :
    m.insertAll (es ++ fs) = (m.insertAll es).insertAll fs :=
  List.foldl_append

/-- The first entry of each name comes behind the old ones, if the name was not taken. -/
theorem insertAll_entries (m : LocationMap) (es : List (String × Location)) :
    (m.insertAll es).entries =
      m.entries ++ (firsts (·.1) es).filter fun e => !m.contains e.1 := by
  induction es generalizing m with
  | nil => simp [insertAll, firsts]
  | cons e es ih =>
      have hstep : m.insertAll (e :: es) = (m.insert e.1 e.2).insertAll es := rfl
      by_cases h : m.contains e.1
      · rw [hstep, insert_of_contains h, ih, firsts, List.filter_cons_of_neg (by simp [h]), List.filter_filter]
        congr 1
        apply List.filter_congr
        intro b _
        -- A name that is taken differs from every name that is not.
        by_cases hb : b.1 = e.1 <;> simp [hb, h]
      · rw [hstep, ih, firsts, List.filter_cons_of_pos (by simp [h]), List.filter_filter,
          insert_entries_of_not_contains h, List.append_assoc, List.singleton_append]
        congr 2
        apply List.filter_congr
        intro b _
        rw [contains_insert, Bool.not_or, bne_comm]
        rfl

theorem insertAll_empty_entries (es : List (String × Location)) :
    (empty.insertAll es).entries = firsts (·.1) es := by
  simp [insertAll_entries, empty, contains]

end LocationMap

/-- What a trial enters, if it succeeds. -/
def Trial.entry? (t : Trial) : Option (String × Location) :=
  match t.signature.compare t.method with
  | .ok scan => some (t.signature.name, ⟨t.owner, t.method, scan⟩)
  | .error _ => none

theorem Trial.entry?_eq_some_iff {t : Trial} {name : String} {l : Location} :
    t.entry? = some (name, l) ↔
      t.signature.name = name ∧ t.signature.compare t.method = .ok l.scan ∧ l.owner = t.owner ∧
        l.method = t.method := by
  obtain ⟨owner, method, scan⟩ := l
  unfold entry?
  split
  · next found h =>
      simp only [Option.some.injEq, Prod.mk.injEq, Location.mk.injEq, h, Except.ok.injEq]
      constructor
      · rintro ⟨rfl, rfl, rfl, rfl⟩
        exact ⟨rfl, rfl, rfl, rfl⟩
      · rintro ⟨rfl, rfl, rfl, rfl⟩
        exact ⟨rfl, rfl, rfl, rfl⟩
  · next h => simp [h]

theorem LocationMap.record_outcome (m : LocationMap) (t : Trial) :
    m.record t (t.signature.compare t.method) = m.insertAll t.entry?.toList := by
  unfold Trial.entry?
  split
  · next h => simp [h, record, insertAll]
  · next h => simp [h, record, insertAll]

theorem LocationMap.insertAll_entry?_of_contains {m : LocationMap} {t : Trial}
    (h : m.contains t.signature.name) : m.insertAll t.entry?.toList = m := by
  rw [← record_outcome]
  cases t.signature.compare t.method with
  | error _ => rfl
  | ok scan => exact insert_of_contains h _

/-- Making the trials enters those that succeed, whatever is left out on the way. -/
theorem tryAll_map (m : LocationMap) (ts : List Trial) :
    (tryAll m ts).map = m.insertAll (ts.filterMap Trial.entry?) := by
  induction ts generalizing m with
  | nil => rfl
  | cons t ts ih =>
      have happ : (t :: ts).filterMap Trial.entry? = t.entry?.toList ++ ts.filterMap Trial.entry? := by
        cases h : t.entry? <;> simp [h]
      rw [happ, LocationMap.insertAll_append]
      by_cases h : m.contains t.signature.name
      -- A trial left out would have entered nothing, whatever its outcome.
      · rw [LocationMap.insertAll_entry?_of_contains h, ← ih]
        simp [tryAll, h]
      · rw [← LocationMap.record_outcome, ← ih]
        simp [tryAll, h]

theorem searchInOrder_entries (classes : List JavaClass) (signatures : List Signature) :
    (searchInOrder classes signatures).map.entries =
      firsts (·.1) ((trials classes signatures).filterMap Trial.entry?) := by
  rw [searchInOrder, tryAll_map, LocationMap.insertAll_empty_entries]

end MethodSearch
