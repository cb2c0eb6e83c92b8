import MethodSearch.Proofs.Resolution.Trail
import MethodSearch.Proofs.Resolution.Weakening

/-!
# One class and all of them

The lookup in one class stops at the first method that has the signature, the search goes through everything. Where the
name of a signature stands once, the search finds it in the first class in which the lookup finds it, and in the same
method, whatever the other signatures are.
-/

namespace MethodSearch

open Bytecode

variable {classes : List JavaClass} {signatures : List Signature} {c : JavaClass} {s : Signature} {m : Method}
  {ms : List Method} {l : Location} {k : Nat}

/-- The comparison does not reject the method. -/
def Signature.Accepts (s : Signature) (m : Method) : Prop :=
  ∃ scan, s.compare m = .ok scan

theorem Signature.not_accepts {reason : Mismatch} (h : s.compare m = .error reason) : ¬s.Accepts m := by
  rintro ⟨scan, hok⟩
  cases h.symm.trans hok

theorem lookup_go_accepted {scan : Scan} (h : s.compare m = .ok scan) :
    lookup.go c s (m :: ms) = (some ⟨c, m, .found .placeholder⟩, [.matched ⟨c, m, s⟩ scan]) := by
  simp [lookup.go, h, Event.ofOutcome]

theorem lookup_go_rejected {reason : Mismatch} (h : s.compare m = .error reason) :
    lookup.go c s (m :: ms) =
      ((lookup.go c s ms).1, .rejected ⟨c, m, s⟩ reason :: (lookup.go c s ms).2) := by
  simp [lookup.go, h, Event.ofOutcome]

theorem lookup_go_eq_none_iff : (lookup.go c s ms).1 = none ↔ ∀ m ∈ ms, ¬s.Accepts m := by
  induction ms with
  | nil => simp [lookup.go]
  | cons m ms ih =>
      rw [List.forall_mem_cons]
      cases h : s.compare m with
      | ok scan =>
          rw [lookup_go_accepted h]
          exact iff_of_false nofun fun hn => hn.1 ⟨scan, h⟩
      | error reason => rw [lookup_go_rejected h, ih, and_iff_right (Signature.not_accepts h)]

/-- The lookup makes a trial of each method up to the first that it finds. -/
theorem lookup_go_of_first {j : Nat} (hm : ms[j]? = some m) (haccepts : s.Accepts m)
    (hbefore : ∀ i m', i < j → ms[i]? = some m' → ¬s.Accepts m') :
    (lookup.go c s ms).1 = some ⟨c, m, .found .placeholder⟩ ∧ (lookup.go c s ms).2.length = j + 1 := by
  induction ms generalizing j with
  | nil => cases hm
  | cons m₀ ms ih =>
      cases j with
      | zero =>
          obtain rfl : m₀ = m := Option.some.inj hm
          obtain ⟨scan, hscan⟩ := haccepts
          rw [lookup_go_accepted hscan]
          exact ⟨rfl, rfl⟩
      | succ j =>
          cases h : s.compare m₀ with
          | ok scan => exact absurd ⟨scan, h⟩ (hbefore 0 m₀ (Nat.zero_lt_succ j) rfl)
          | error reason =>
              obtain ⟨hfound, hlength⟩ := ih hm fun i m' hi => hbefore (i + 1) m' (Nat.succ_lt_succ hi)
              rw [lookup_go_rejected h, List.length_cons, hlength]
              exact ⟨hfound, rfl⟩

theorem lookup_go_location (h : (lookup.go c s ms).1 = some l) : l.scan = .found .placeholder := by
  induction ms with
  | nil => cases h
  | cons m ms ih =>
      cases hm : s.compare m with
      | ok scan =>
          rw [lookup_go_accepted hm] at h
          cases h
          rfl
      | error reason =>
          rw [lookup_go_rejected hm] at h
          exact ih h

theorem lookup_isSome_iff : (lookup c s).1.isSome ↔ ∃ m ∈ c.methods, s.Accepts m := by
  rw [Option.isSome_iff_ne_none, lookup, Ne, lookup_go_eq_none_iff]
  simp

/-! ## A name that stands once -/

/-- The signature stands at one position, and its name nowhere else. -/
def OnceAt (signatures : List Signature) (s : Signature) (k : Nat) : Prop :=
  ∀ j t, signatures[j]? = some t ∧ t.name = s.name ↔ j = k ∧ t = s

theorem exists_onceAt (hs : s ∈ signatures) (honce : (signatures.map (·.name)).count s.name = 1) :
    ∃ k, OnceAt signatures s k := by
  obtain ⟨front, back, rfl⟩ := List.append_of_mem hs
  rw [List.map_append, List.map_cons, List.count_append, List.count_cons_self] at honce
  have hfront : ∀ t ∈ front, t.name ≠ s.name := by
    intro t ht he
    have hpos : 0 < (front.map (·.name)).count s.name :=
      List.count_pos_iff.mpr (List.mem_map.mpr ⟨t, ht, he⟩)
    omega
  have hback : ∀ t ∈ back, t.name ≠ s.name := by
    intro t ht he
    have hpos : 0 < (back.map (·.name)).count s.name :=
      List.count_pos_iff.mpr (List.mem_map.mpr ⟨t, ht, he⟩)
    omega
  refine ⟨front.length, fun j t => ⟨?_, ?_⟩⟩
  · rintro ⟨hj, hn⟩
    rcases Nat.lt_trichotomy j front.length with hlt | rfl | hlt
    · rw [List.getElem?_append_left hlt] at hj
      exact absurd hn (hfront t (List.mem_of_getElem? hj))
    · rw [List.getElem?_append_right (Nat.le_refl _), Nat.sub_self] at hj
      exact ⟨rfl, (Option.some.inj hj).symm⟩
    · obtain ⟨d, rfl⟩ := Nat.exists_eq_add_of_lt hlt
      rw [List.getElem?_append_right (by omega), show front.length + d + 1 - front.length = d + 1 by omega] at hj
      exact absurd hn (hback t (List.mem_of_getElem? hj))
  · rintro ⟨rfl, rfl⟩
    simp

/-- The method at the position of the class at the position has the signature. -/
def HadAt (classes : List JavaClass) (s : Signature) (i j : Nat) (l : Location) : Prop :=
  classes[i]? = some l.owner ∧ l.owner.methods[j]? = some l.method ∧ s.compare l.method = .ok l.scan

/-- The first method that has the signature, in the order of the classes and their methods. -/
def FirstHad (classes : List JavaClass) (s : Signature) (i j : Nat) (l : Location) : Prop :=
  HadAt classes s i j l ∧ ∀ i' j' l', HadAt classes s i' j' l' → i < i' ∨ i = i' ∧ j ≤ j'

namespace OnceAt

variable {p : Place}

theorem succeedsAt_iff (h : OnceAt signatures s k) :
    SucceedsAt classes signatures p s.name l ↔ p.signature = k ∧ HadAt classes s p.owner p.method l := by
  constructor
  · rintro ⟨hc, hm, t, ht, hn, hscan⟩
    obtain ⟨hk, rfl⟩ := (h p.signature t).mp ⟨ht, hn⟩
    exact ⟨hk, hc, hm, hscan⟩
  · rintro ⟨hk, hc, hm, hscan⟩
    obtain ⟨ht, hn⟩ := (h p.signature s).mpr ⟨hk, rfl⟩
    exact ⟨hc, hm, s, ht, hn, hscan⟩

theorem firstSuccess_iff (h : OnceAt signatures s k) :
    FirstSuccess classes signatures p s.name l ↔ p.signature = k ∧ FirstHad classes s p.owner p.method l := by
  simp only [FirstSuccess, FirstHad, h.succeedsAt_iff, and_assoc]
  refine and_congr_right fun hp => and_congr_right fun _ => ?_
  constructor
  · intro hleast i j l' hl'
    rcases hleast ⟨i, j, k⟩ l' ⟨rfl, hl'⟩ with rfl | hbefore
    · exact .inr ⟨rfl, Nat.le_refl _⟩
    · simp only [Place.Before, hp] at hbefore
      omega
  · rintro hleast ⟨i, j, k'⟩ l' ⟨rfl, hl'⟩
    have := hleast i j l' hl'
    obtain ⟨i', j', k⟩ := p
    simp only [Place.mk.injEq, Place.Before] at hp this ⊢
    omega

/-- Where a signature is found does not depend on the others. -/
theorem find?_eq_some_iff (h : OnceAt signatures s k) (strategy : Strategy) :
    (resolve strategy classes signatures).map.find? s.name = some l ↔ ∃ i j, FirstHad classes s i j l := by
  simp only [resolve_find?_eq_some_iff, h.firstSuccess_iff]
  constructor
  · rintro ⟨p, -, hp⟩
    exact ⟨_, _, hp⟩
  · rintro ⟨i, j, hfirst⟩
    exact ⟨⟨i, j, k⟩, rfl, hfirst⟩

theorem contains_iff (h : OnceAt signatures s k) (strategy : Strategy) :
    (resolve strategy classes signatures).map.contains s.name ↔ ∃ c ∈ classes, ∃ m ∈ c.methods, s.Accepts m := by
  rw [resolve_map, searchInOrder_contains_iff]
  simp only [Resolvable, h.succeedsAt_iff]
  constructor
  · rintro ⟨p, l, -, hc, hm, hscan⟩
    exact ⟨l.owner, List.mem_of_getElem? hc, l.method, List.mem_of_getElem? hm, l.scan, hscan⟩
  · rintro ⟨c, hc, m, hm, scan, hscan⟩
    obtain ⟨i, hi⟩ := List.getElem?_of_mem hc
    obtain ⟨j, hj⟩ := List.getElem?_of_mem hm
    exact ⟨⟨i, j, k⟩, ⟨c, m, scan⟩, rfl, hi, hj, hscan⟩

end OnceAt

theorem onceAt_singleton (s : Signature) : OnceAt [s] s 0 := by
  intro j t
  cases j with
  | zero => simp +contextual [eq_comm]
  | succ j => simp

namespace FirstHad

variable {i j : Nat}

theorem lookup_eq (h : FirstHad classes s i j l) :
    (lookup l.owner s).1 = some ⟨l.owner, l.method, .found .placeholder⟩ ∧
      (lookup l.owner s).2.length = j + 1 := by
  obtain ⟨⟨hc, hm, hscan⟩, hleast⟩ := h
  refine lookup_go_of_first hm ⟨l.scan, hscan⟩ ?_
  rintro j' m' hj' hm' ⟨scan, hscan'⟩
  have := hleast i j' ⟨l.owner, m', scan⟩ ⟨hc, hm', hscan'⟩
  omega

theorem lookup_eq_none (h : FirstHad classes s i j l) {i' : Nat} (hi' : i' < i) (hc : classes[i']? = some c) :
    (lookup c s).1 = none := by
  refine lookup_go_eq_none_iff.mpr ?_
  rintro m hm ⟨scan, hscan⟩
  obtain ⟨j', hj'⟩ := List.getElem?_of_mem hm
  have := h.2 i' j' ⟨c, m, scan⟩ ⟨hc, hj', hscan⟩
  omega

end FirstHad

/-! ## The records -/

/-- The trial was left out. -/
def Event.isSkipped : Event → Bool
  | .skipped _ => true
  | _ => false

/-- The trial was made. -/
def Event.isMade (e : Event) : Bool :=
  e.level = .trace && !e.isSkipped

theorem tryAll_events_of_contains {map : LocationMap} {ts : List Trial}
    (h : ∀ t ∈ ts, map.contains t.signature.name) : (tryAll map ts).events = ts.map .skipped := by
  induction ts with
  | nil => rfl
  | cons t ts ih =>
      rw [List.forall_mem_cons] at h
      simp [tryAll, h.1, ih h.2]

/-- The trials that the search makes in a class are those of the lookup, and then it leaves out the rest. -/
theorem lookup_go_events (c : JavaClass) (s : Signature) (ms : List Method) :
    (lookup.go c s ms).2 = (tryAll .empty (ms.map fun m => ⟨c, m, s⟩)).events.filter Event.isMade := by
  induction ms with
  | nil => rfl
  | cons m ms ih =>
      rw [List.map_cons, tryAll_cons]
      cases h : s.compare m with
      | ok scan =>
          have hentry : Trial.entry? ⟨c, m, s⟩ = some (s.name, ⟨c, m, scan⟩) :=
            Trial.entry?_eq_some_iff.mpr ⟨rfl, h, rfl, rfl⟩
          have hevent : (⟨c, m, s⟩ : Trial).event .empty = .matched ⟨c, m, s⟩ scan := by
            simp [Trial.event, LocationMap.contains, LocationMap.empty, h, Event.ofOutcome]
          have hrest : (tryAll (LocationMap.empty.insertAll [(s.name, ⟨c, m, scan⟩)])
              (ms.map fun m => ⟨c, m, s⟩)).events = (ms.map fun m => (⟨c, m, s⟩ : Trial)).map .skipped := by
            refine tryAll_events_of_contains fun t ht => ?_
            obtain ⟨m', -, rfl⟩ := List.mem_map.mp ht
            change (LocationMap.empty.insert s.name ⟨c, m, scan⟩).contains s.name = true
            rw [LocationMap.contains_insert, beq_self_eq_true, Bool.or_true]
          rw [lookup_go_accepted h, hentry, hevent, Option.toList_some, hrest]
          simp [Event.isMade, Event.isSkipped, Event.level]
      | error reason =>
          have hentry : Trial.entry? ⟨c, m, s⟩ = none := by
            unfold Trial.entry?
            simp [h]
          have hevent : (⟨c, m, s⟩ : Trial).event .empty = .rejected ⟨c, m, s⟩ reason := by
            simp [Trial.event, LocationMap.contains, LocationMap.empty, h, Event.ofOutcome]
          have hmade : (Event.rejected ⟨c, m, s⟩ reason).isMade = true := rfl
          rw [lookup_go_rejected h, hentry, hevent, ih, List.filter_cons_of_pos hmade]
          rfl

theorem lookup_events (strategy : Strategy) (c : JavaClass) (s : Signature) :
    (lookup c s).2 = (resolve strategy [c] [s]).events.filter Event.isMade := by
  have htrials : trials [c] [s] = c.methods.map fun m => ⟨c, m, s⟩ := by
    simp [trials, List.map_eq_flatMap]
  have hunresolved (names : List String) : (names.map Event.unresolved).filter Event.isMade = [] := by
    simp [Event.isMade, Event.level]
  rw [resolve_eq_sequential, resolve, Search.finish, List.filter_append, hunresolved, List.append_nil, searchInOrder,
    htrials]
  exact lookup_go_events c s c.methods

/-- A signature whose name stands once is found exactly if the lookup finds it in some class. The class of its entry is
the first of these, and its method is the one at which the lookup stops. The other signatures make no difference, the
window of the lookup is the placeholder, and the lookup records the trials that a search of its class alone makes. -/
theorem search_agrees_with_lookup (strategy : Strategy) (classes : List JavaClass) (hs : s ∈ signatures)
    (honce : (signatures.map (·.name)).count s.name = 1) :
    let map := (resolve strategy classes signatures).map
    (map.contains s.name ↔ ∃ c ∈ classes, (lookup c s).1.isSome) ∧
      (∀ l, map.find? s.name = some l → ∃ p, FirstSuccess classes signatures p s.name l ∧
        (∀ i c, i < p.owner → classes[i]? = some c → (lookup c s).1 = none) ∧
        (lookup l.owner s).1 = some ⟨l.owner, l.method, .found .placeholder⟩ ∧
        (lookup l.owner s).2.length = p.method + 1) ∧
      map.find? s.name = (resolve strategy classes [s]).map.find? s.name ∧
      (∀ c l, (lookup c s).1 = some l → l.scan = .found .placeholder) ∧
      ∀ c, (lookup c s).2.map Event.record =
        ((resolve strategy [c] [s]).events.filter fun e => e.level = .trace && !e.isSkipped).map Event.record := by
  obtain ⟨k, honceAt⟩ := exists_onceAt hs honce
  refine ⟨?_, ?_, ?_, fun c l => lookup_go_location, ?_⟩
  · simp only [lookup_isSome_iff]
    exact honceAt.contains_iff strategy
  · intro l hl
    obtain ⟨p, hp⟩ := resolve_find?_eq_some_iff.mp hl
    obtain ⟨-, hfirst⟩ := honceAt.firstSuccess_iff.mp hp
    exact ⟨p, hp, fun i c hi hc => hfirst.lookup_eq_none hi hc, hfirst.lookup_eq⟩
  · apply Option.ext
    intro l
    rw [honceAt.find?_eq_some_iff, (onceAt_singleton s).find?_eq_some_iff]
  · intro c
    exact congrArg (List.map Event.record) (lookup_events strategy c s)

/-- A class without a method that adds. -/
def setterClass : JavaClass :=
  ⟨"setter", [⟨"set", .void, [.primitive .int], ⟨1⟩, [.op 42, .op 27, .op 181, .op 177]⟩]⟩

theorem search_agrees_with_lookup_adder :
    let signatures := [finisher, adder, finisher]
    let classes := [setterClass, counterClass]
    let map := (resolve .sequential classes signatures).map
    adder ∈ signatures ∧ (signatures.map (·.name)).count adder.name = 1 ∧ map.contains "adder" ∧
      map.find? "adder" = (resolve .sequential classes [adder]).map.find? "adder" ∧
      ∃ l p, map.find? "adder" = some l ∧ FirstSuccess classes signatures p "adder" l ∧
        (lookup l.owner adder).1 = some ⟨l.owner, l.method, .found .placeholder⟩ ∧
        (lookup l.owner adder).2.length = p.method + 1 := by
  intro signatures classes map
  have hs : adder ∈ signatures := by decide
  have honce : (signatures.map (·.name)).count adder.name = 1 := by decide
  obtain ⟨hfound, hentry, halone, -⟩ := search_agrees_with_lookup .sequential classes hs honce
  have hcontains : map.contains "adder" := hfound.mpr ⟨counterClass, by decide, by decide⟩
  obtain ⟨l, hl⟩ : ∃ l, map.find? "adder" = some l := by
    rw [← Option.isSome_iff_exists]
    decide
  obtain ⟨p, hp, -, hlookup⟩ := hentry l hl
  exact ⟨hs, honce, hcontains, halone, l, p, hl, hp, hlookup⟩

end MethodSearch
