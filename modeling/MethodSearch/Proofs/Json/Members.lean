import MethodSearch.Proofs.Json.Document

/-!
# Members in any order

An object is read as a record whatever the order of its members, whichever of the fields are among them, and whatever
else it holds. Where each field takes a draft that depends on the names read so far to the one with its own name added,
the whole object does so with all names.
-/

namespace MethodSearch.Json

theorem Document.skim_ofValue (v : Value) : (ofValue v).skim = .ok () := by
  cases v <;> rfl

namespace Layout

variable {σ α : Type} {l : Layout σ α} {ms ms' : List (String × Value)} {name : String} {seen : List String}

/-- The names of those members that are fields. -/
def fieldNames (l : Layout σ α) (ms : List (String × Value)) : List String :=
  (ms.map (·.1)).filter fun name => (l.field? name).isSome

theorem fieldNames_cons_unknown (hf : l.field? name = none) (v : Value) (ms : List (String × Value)) :
    l.fieldNames ((name, v) :: ms) = l.fieldNames ms :=
  List.filter_cons_of_neg (by simp [hf])

theorem fieldNames_cons_known {f : LayoutField σ} (hf : l.field? name = some f) (v : Value)
    (ms : List (String × Value)) : l.fieldNames ((name, v) :: ms) = name :: l.fieldNames ms :=
  List.filter_cons_of_pos (by simp [hf])

theorem fieldNames_append (l : Layout σ α) (ms ms' : List (String × Value)) :
    l.fieldNames (ms ++ ms') = l.fieldNames ms ++ l.fieldNames ms' := by
  rw [fieldNames, List.map_append, List.filter_append]
  rfl

theorem fieldNames_perm (l : Layout σ α) (h : ms.Perm ms') : (l.fieldNames ms).Perm (l.fieldNames ms') :=
  (h.map _).filter _

theorem fieldNames_of_known (h : ∀ m ∈ ms, (l.field? m.1).isSome = true) : l.fieldNames ms = ms.map (·.1) :=
  List.filter_eq_self.mpr (List.forall_mem_map.mpr h)

theorem fieldNames_of_unknown (h : ∀ m ∈ ms, l.field? m.1 = none) : l.fieldNames ms = [] :=
  List.filter_eq_nil_iff.mpr (List.forall_mem_map.mpr fun m hm => by simp [h m hm])

theorem storeMembers_unknown (hf : l.field? name = none) (seen : List String) (s : σ) (v : Value)
    (rest : List (Key × Document)) :
    l.storeMembers seen s ((.text (.ok name), .ofValue v) :: rest) = l.storeMembers seen s rest := by
  simp only [storeMembers, hf, Document.skim_ofValue, bind, Except.bind]

/-- Storing a member that is a field adds its name to the draft. -/
def StoresNames (l : Layout σ α) (draft : List String → σ) (ms : List (String × Value)) : Prop :=
  ∀ m ∈ ms, ∀ f, l.field? m.1 = some f → ∀ names, f.store (draft names) (.ofValue m.2) = .ok (draft (m.1 :: names))

variable {draft : List String → σ}

theorem storeMembers_draft (hstore : l.StoresNames draft ms) (hnames : (l.fieldNames ms ++ seen).Nodup) :
    l.storeMembers seen (draft seen) (Document.ofMembers ms) = .ok (draft ((l.fieldNames ms).reverse ++ seen)) := by
  induction ms generalizing seen with
  | nil => rfl
  | cons m ms ih =>
      obtain ⟨name, v⟩ := m
      obtain ⟨hfirst, hothers⟩ := List.forall_mem_cons.mp hstore
      rw [Document.ofMembers]
      cases hf : l.field? name with
      | none =>
          rw [fieldNames_cons_unknown hf] at hnames ⊢
          rw [storeMembers_unknown hf, ih hothers hnames]
      | some f =>
          obtain rfl : f.name = name := by simpa using List.find?_some hf
          rw [fieldNames_cons_known hf, List.cons_append] at hnames
          have hseen : f.name ∉ seen := fun hmem => (List.nodup_cons.mp hnames).1 (List.mem_append_right _ hmem)
          rw [storeMembers_known hf hseen, hfirst f hf seen, fieldNames_cons_known hf, List.reverse_cons,
            List.append_assoc]
          exact ih hothers (List.perm_middle.nodup_iff.mpr hnames)

/-- An object that has some of the fields as members, each of them once, and others. -/
theorem read_draft {a : α} (hstore : l.StoresNames draft ms) (hnames : (l.fieldNames ms).Nodup)
    (hblank : draft [] = l.blank) (hclose : l.close (draft (l.fieldNames ms).reverse) = some a) :
    l.read (.ofValue (.object ms)) = .ok a := by
  have hstored : l.storeMembers [] (draft []) (Document.ofMembers ms) =
      .ok (draft ((l.fieldNames ms).reverse ++ [])) := storeMembers_draft hstore (by rwa [List.append_nil])
  rw [hblank, List.append_nil] at hstored
  rw [Document.ofValue, read, hstored]
  show finish (l.close _) = _
  rw [hclose]
  rfl

end Layout

end MethodSearch.Json
