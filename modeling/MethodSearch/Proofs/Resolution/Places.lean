import MethodSearch.Proofs.Resolution.Entries

/-!
# Where signatures are found

Every trial has a place: the positions of its class, of the method in the class, and of the signature. A search
gives each name the success of the least place, and its entries stand in the order of their places.
-/

namespace MethodSearch

open Bytecode

/-- The positions of a class, of one of its methods and of a signature. -/
structure Place where
  owner : Nat
  method : Nat
  signature : Nat
  deriving Repr, DecidableEq

namespace Place

/-- Classes count first, then methods, then signatures. -/
def Before (p q : Place) : Prop :=
  p.owner < q.owner ∨
    p.owner = q.owner ∧ (p.method < q.method ∨ p.method = q.method ∧ p.signature < q.signature)

theorem Before.asymm {p q : Place} (h : p.Before q) : ¬q.Before p := by
  simp only [Before] at h ⊢
  omega

theorem Before.irrefl (p : Place) : ¬p.Before p := fun h => h.asymm h

end Place

variable {classes : List JavaClass} {signatures : List Signature}

/-- The signature at a place has the name, and the method there has the signature and is the location's. -/
def SucceedsAt (classes : List JavaClass) (signatures : List Signature) (p : Place) (name : String)
    (l : Location) : Prop :=
  classes[p.owner]? = some l.owner ∧ l.owner.methods[p.method]? = some l.method ∧
    ∃ s, signatures[p.signature]? = some s ∧ s.name = name ∧ s.compare l.method = .ok l.scan

/-- The success of the least place among those of a name. -/
def FirstSuccess (classes : List JavaClass) (signatures : List Signature) (p : Place) (name : String)
    (l : Location) : Prop :=
  SucceedsAt classes signatures p name l ∧
    ∀ q k, SucceedsAt classes signatures q name k → q = p ∨ p.Before q

/-- Some method has a signature of that name. -/
def Resolvable (classes : List JavaClass) (signatures : List Signature) (name : String) : Prop :=
  ∃ p l, SucceedsAt classes signatures p name l

/-! ## Trials with their places -/

section ZipIdx

variable {α β : Type}

theorem zipIdx_pairwise_lt (as : List α) : as.zipIdx.Pairwise fun a b => a.2 < b.2 := by
  have h : (as.zipIdx.map (·.2)).Pairwise (· < ·) := by
    rw [List.zipIdx_map_snd]
    exact List.pairwise_lt_range'
  exact List.pairwise_map.mp h

theorem zipIdx_map_comp_fst (f : α → β) (as : List α) : (as.zipIdx.map fun x => f x.1) = as.map f := by
  have h : (as.zipIdx.map fun x => f x.1) = (as.zipIdx.map (·.1)).map f := by
    rw [List.map_map]
    rfl
  rw [h, List.zipIdx_map_fst]

theorem zipIdx_flatMap_comp_fst (f : α → List β) (as : List α) :
    (as.zipIdx.flatMap fun x => f x.1) = as.flatMap f := by
  rw [List.flatMap_def, zipIdx_map_comp_fst, List.flatMap_def]

end ZipIdx

/-- All trials in their order, each with its place. -/
def placedTrials (classes : List JavaClass) (signatures : List Signature) : List (Place × Trial) :=
  classes.zipIdx.flatMap fun (c, i) => c.methods.zipIdx.flatMap fun (m, j) =>
    signatures.zipIdx.map fun (s, k) => (⟨i, j, k⟩, ⟨c, m, s⟩)

theorem placedTrials_map_snd : (placedTrials classes signatures).map (·.2) = trials classes signatures := by
  simp only [placedTrials, trials, List.map_flatMap, List.map_map, Function.comp_def]
  rw [← zipIdx_flatMap_comp_fst _ classes]
  simp only [← zipIdx_flatMap_comp_fst _ (JavaClass.methods _), ← zipIdx_map_comp_fst _ signatures]

theorem mem_placedTrials {p : Place} {t : Trial} :
    (p, t) ∈ placedTrials classes signatures ↔
      classes[p.owner]? = some t.owner ∧ t.owner.methods[p.method]? = some t.method ∧
        signatures[p.signature]? = some t.signature := by
  obtain ⟨i, j, k⟩ := p
  obtain ⟨c, m, s⟩ := t
  simp only [placedTrials, List.mem_flatMap, List.mem_map, Prod.exists, Prod.mk.injEq, Place.mk.injEq,
    Trial.mk.injEq, List.mk_mem_zipIdx_iff_getElem?]
  constructor
  · rintro ⟨_, _, hc, _, _, hm, _, _, hs, ⟨rfl, rfl, rfl⟩, rfl, rfl, rfl⟩
    exact ⟨hc, hm, hs⟩
  · rintro ⟨hc, hm, hs⟩
    exact ⟨c, i, hc, m, j, hm, s, k, hs, ⟨rfl, rfl, rfl⟩, rfl, rfl, rfl⟩

theorem placedTrials_pairwise : (placedTrials classes signatures).Pairwise fun x y => x.1.Before y.1 := by
  unfold placedTrials
  rw [List.pairwise_flatMap]
  refine ⟨?_, (zipIdx_pairwise_lt classes).imp ?_⟩
  · rintro ⟨c, i⟩ _
    simp only [List.pairwise_flatMap]
    refine ⟨?_, (zipIdx_pairwise_lt c.methods).imp ?_⟩
    · rintro ⟨m, j⟩ _
      rw [List.pairwise_map]
      exact (zipIdx_pairwise_lt signatures).imp fun h => .inr ⟨rfl, .inr ⟨rfl, h⟩⟩
    · rintro ⟨m, j⟩ ⟨m', j'⟩ h x hx y hy
      obtain ⟨_, _, rfl⟩ := List.mem_map.mp hx
      obtain ⟨_, _, rfl⟩ := List.mem_map.mp hy
      exact .inr ⟨rfl, .inl h⟩
  · rintro ⟨c, i⟩ ⟨c', i'⟩ h x hx y hy
    obtain ⟨_, _, hx⟩ := List.mem_flatMap.mp hx
    obtain ⟨_, _, rfl⟩ := List.mem_map.mp hx
    obtain ⟨_, _, hy⟩ := List.mem_flatMap.mp hy
    obtain ⟨_, _, rfl⟩ := List.mem_map.mp hy
    exact .inl h

/-- What the trials enter that succeed, each with its place. -/
def successes (classes : List JavaClass) (signatures : List Signature) : List (Place × String × Location) :=
  (placedTrials classes signatures).filterMap fun (p, t) => t.entry?.map (p, ·)

theorem mem_successes {p : Place} {name : String} {l : Location} :
    (p, name, l) ∈ successes classes signatures ↔ SucceedsAt classes signatures p name l := by
  simp only [successes, List.mem_filterMap, Prod.exists, Option.map_eq_some_iff, Prod.mk.injEq,
    mem_placedTrials]
  constructor
  · rintro ⟨q, t, ⟨hc, hm, hs⟩, e, l', he, rfl, rfl, rfl⟩
    obtain ⟨hn, hscan, ho, hmethod⟩ := Trial.entry?_eq_some_iff.mp he
    rw [SucceedsAt, ho, hmethod]
    exact ⟨hc, hm, t.signature, hs, hn, hscan⟩
  · rintro ⟨hc, hm, s, hs, hn, hscan⟩
    exact ⟨p, ⟨l.owner, l.method, s⟩, ⟨hc, hm, hs⟩, name, l,
      Trial.entry?_eq_some_iff.mpr ⟨hn, hscan, rfl, rfl⟩, rfl, rfl, rfl⟩

theorem successes_pairwise : (successes classes signatures).Pairwise fun x y => x.1.Before y.1 := by
  refine placedTrials_pairwise.filterMap _ ?_
  rintro ⟨p, t⟩ ⟨q, u⟩ h x hx y hy
  obtain ⟨_, _, rfl⟩ := Option.map_eq_some_iff.mp hx
  obtain ⟨_, _, rfl⟩ := Option.map_eq_some_iff.mp hy
  exact h

theorem successes_map_snd :
    (successes classes signatures).map (·.2) = (trials classes signatures).filterMap Trial.entry? := by
  rw [← placedTrials_map_snd, List.filterMap_map, successes, List.map_filterMap]
  congr 1
  funext ⟨p, t⟩
  simp [Function.comp_def]

/-- The entries of a search with the places where they were found. -/
def discoveries (classes : List JavaClass) (signatures : List Signature) : List (Place × String × Location) :=
  firsts (·.2.1) (successes classes signatures)

theorem mem_discoveries {p : Place} {name : String} {l : Location} :
    (p, name, l) ∈ discoveries classes signatures ↔ FirstSuccess classes signatures p name l := by
  constructor
  · intro h
    refine ⟨mem_successes.mp ((firsts_sublist _).subset h), ?_⟩
    intro q k hk
    have hearliest := firsts_earliest successes_pairwise h (mem_successes.mpr hk) rfl
    exact hearliest.imp_left fun he => (Prod.mk.inj he).1
  · rintro ⟨h, hleast⟩
    obtain ⟨⟨q, n, k⟩, hmem, rfl⟩ := exists_mem_firsts (·.2.1) (mem_successes.mpr h)
    have hk := mem_successes.mp ((firsts_sublist _).subset hmem)
    -- The first of the name is not behind the least place, and the least place not behind the first.
    rcases firsts_earliest successes_pairwise hmem (mem_successes.mpr h) rfl with he | hbefore
    · rw [he]
      exact hmem
    · rcases hleast q k hk with rfl | hbefore'
      · exact absurd hbefore (Place.Before.irrefl q)
      · exact absurd hbefore hbefore'.asymm

theorem searchInOrder_entries_eq_discoveries :
    (searchInOrder classes signatures).map.entries = (discoveries classes signatures).map (·.2) := by
  rw [searchInOrder_entries, ← successes_map_snd, firsts_map]
  rfl

/-! ## The map of a search -/

theorem exists_discovery {name : String} :
    (∃ x ∈ discoveries classes signatures, x.2.1 = name) ↔ Resolvable classes signatures name := by
  constructor
  · rintro ⟨⟨p, n, l⟩, hx, rfl⟩
    exact ⟨p, l, (mem_discoveries.mp hx).1⟩
  · rintro ⟨p, l, h⟩
    exact exists_mem_firsts (·.2.1) (mem_successes.mpr h)

instance : DecidablePred (Resolvable classes signatures) :=
  fun _ => decidable_of_iff _ exists_discovery

theorem searchInOrder_names :
    (searchInOrder classes signatures).map.names = (discoveries classes signatures).map (·.2.1) := by
  rw [LocationMap.names, searchInOrder_entries_eq_discoveries, List.map_map]
  rfl

theorem searchInOrder_names_nodup : (searchInOrder classes signatures).map.names.Nodup := by
  rw [searchInOrder_names]
  exact firsts_names_nodup _

theorem searchInOrder_contains_iff {name : String} :
    (searchInOrder classes signatures).map.contains name ↔ Resolvable classes signatures name := by
  rw [LocationMap.contains_iff, searchInOrder_names, List.mem_map]
  exact exists_discovery

theorem searchInOrder_find?_eq_some_iff {name : String} {l : Location} :
    (searchInOrder classes signatures).map.find? name = some l ↔
      ∃ p, FirstSuccess classes signatures p name l := by
  rw [LocationMap.find?_eq_some_iff searchInOrder_names_nodup, searchInOrder_entries_eq_discoveries, List.mem_map]
  constructor
  · rintro ⟨⟨p, n, k⟩, hx, he⟩
    obtain ⟨rfl, rfl⟩ := Prod.mk.inj he
    exact ⟨p, mem_discoveries.mp hx⟩
  · rintro ⟨p, h⟩
    exact ⟨(p, name, l), mem_discoveries.mpr h, rfl⟩

theorem searchInOrder_unresolved :
    (searchInOrder classes signatures).map.unresolved signatures =
      (signatures.map (·.name)).filter fun name => ¬Resolvable classes signatures name := by
  apply List.filter_congr
  intro name _
  rw [Bool.eq_iff_iff, Bool.not_eq_true', ← Bool.not_eq_true, searchInOrder_contains_iff, decide_eq_true_iff]

/-- The map of a search in order. Each name has the success of the least place, the entries stand in the order of
these places, and the names without a success are left over. -/
theorem resolve_sequential_map (classes : List JavaClass) (signatures : List Signature) :
    let map := (resolve .sequential classes signatures).map
    map.names.Nodup ∧
      (∀ name, map.contains name ↔ Resolvable classes signatures name) ∧
      (∀ name l, map.find? name = some l ↔ ∃ p, FirstSuccess classes signatures p name l) ∧
      (∃ found : List (Place × String × Location), map.entries = found.map (·.2) ∧
        found.Pairwise (fun x y => x.1.Before y.1) ∧
        ∀ x ∈ found, FirstSuccess classes signatures x.1 x.2.1 x.2.2) ∧
      map.unresolved signatures =
        (signatures.map (·.name)).filter fun name => ¬Resolvable classes signatures name := by
  refine ⟨searchInOrder_names_nodup, fun _ => searchInOrder_contains_iff,
    fun _ _ => searchInOrder_find?_eq_some_iff, ?_, searchInOrder_unresolved⟩
  refine ⟨discoveries classes signatures, searchInOrder_entries_eq_discoveries, ?_, ?_⟩
  · exact successes_pairwise.sublist (firsts_sublist _)
  · intro x hx
    exact mem_discoveries.mp hx

-- A repeated name goes to the earlier method, although the signature of that method comes later.
example :
    let method (code : Opcode) : Method := ⟨"m", .void, [], ⟨0⟩, [.op code]⟩
    let signature (name : String) (code : Opcode) : Signature :=
      ⟨name, .any, .any, .any, .exactly ⟨[code]⟩⟩
    let owner : JavaClass := ⟨"a", [method 1, method 2]⟩
    (resolve .sequential [owner] [signature "s" 2, signature "t" 3, signature "s" 1]).map.find? "s" =
      some ⟨owner, method 1, .found ⟨0, 1⟩⟩ := by decide

end MethodSearch
