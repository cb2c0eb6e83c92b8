import MethodSearch.Proofs.Resolution.Places
import MethodSearch.Proofs.Resolution.Schedules
import MethodSearch.Proofs.Signature.Messages

/-!
# The trail of a search

A search leaves one event behind for each trial, in the order of the places. The trial is passed over where an earlier
place had a success for its name, and made everywhere else. The names that stay without an entry come last.
-/

namespace MethodSearch

open Bytecode

variable {classes : List JavaClass} {signatures : List Signature}

/-- The event of a trial when the map holds what was found so far. -/
def Trial.event (m : LocationMap) (t : Trial) : Event :=
  if m.contains t.signature.name then .skipped t else .ofOutcome t (t.signature.compare t.method)

theorem tryAll_cons (m : LocationMap) (t : Trial) (ts : List Trial) :
    tryAll m (t :: ts) =
      ⟨(tryAll (m.insertAll t.entry?.toList) ts).map,
        t.event m :: (tryAll (m.insertAll t.entry?.toList) ts).events⟩ := by
  by_cases h : m.contains t.signature.name
  · rw [LocationMap.insertAll_entry?_of_contains h]
    simp [tryAll, Trial.event, h]
  · rw [← LocationMap.record_outcome]
    simp [tryAll, Trial.event, h]

theorem LocationMap.contains_insertAll_entry? {m : LocationMap} {t : Trial} {name : String} :
    (m.insertAll t.entry?.toList).contains name ↔ m.contains name ∨ ∃ l, t.entry? = some (name, l) := by
  cases t.entry? with
  | none => simp [insertAll]
  | some e =>
      have hstep : m.insertAll (some e).toList = m.insert e.1 e.2 := rfl
      rw [hstep, contains_insert]
      simp [Prod.ext_iff]

/-- What a trial entered, as its event tells. -/
def Event.found? : Event → Option (String × Location)
  | .matched t scan => some (t.signature.name, ⟨t.owner, t.method, scan⟩)
  | _ => none

theorem Event.found?_ofOutcome (t : Trial) :
    (Event.ofOutcome t (t.signature.compare t.method)).found? = t.entry? := by
  unfold Trial.entry?
  split
  · next h => simp [h, ofOutcome, found?]
  · next h => simp [h, ofOutcome, found?]

theorem LocationMap.insertAll_entry?_entries (m : LocationMap) (t : Trial) :
    (m.insertAll t.entry?.toList).entries = m.entries ++ (t.event m).found?.toList := by
  by_cases h : m.contains t.signature.name
  · rw [insertAll_entry?_of_contains h]
    simp [Trial.event, h, Event.found?]
  · rw [Trial.event, if_neg h, Event.found?_ofOutcome]
    cases he : t.entry? with
    | none => simp [insertAll]
    | some e =>
        obtain ⟨name, l⟩ := e
        obtain ⟨rfl, -⟩ := Trial.entry?_eq_some_iff.mp he
        exact insert_entries_of_not_contains h l

/-- The matches of a trail are the entries, in the order in which they were made. -/
theorem tryAll_entries (m : LocationMap) (ts : List Trial) :
    (tryAll m ts).map.entries = m.entries ++ (tryAll m ts).events.filterMap Event.found? := by
  induction ts generalizing m with
  | nil => simp [tryAll]
  | cons t ts ih =>
      rw [tryAll_cons, ih, LocationMap.insertAll_entry?_entries, List.append_assoc]
      cases h : (t.event m).found? <;> simp [h]

/-! ## What the records of a trial say -/

/-- How many brackets a text opens. -/
def openings (s : String) : Nat :=
  s.toList.count '('

theorem openings_append (s t : String) : openings (s ++ t) = openings s + openings t := by
  rw [openings, String.toList_append, List.count_append, openings, openings]

theorem openings_le_append (s t : String) : openings s ≤ openings (s ++ t) := by
  rw [openings_append]
  exact Nat.le_add_right ..

theorem openings_descriptor_pos (m : Method) : 0 < openings m.descriptor := by
  rw [openings, Method.descriptor, MethodType.render, String.toList_ofList]
  exact List.count_pos_iff.mpr List.mem_cons_self

namespace Event

theorem openings_skipped (t : Trial) :
    openings (skipped t).message = openings t.signature.name + openings (t.owner.name ++ "." ++ t.method.name) := by
  have hmessage : (skipped t).message =
      t.signature.name ++ " already resolved, skipping " ++ t.owner.name ++ "." ++ t.method.name := rfl
  have hwords : openings " already resolved, skipping " = 0 := by decide
  simp only [hmessage, openings_append, hwords, Nat.add_zero, Nat.add_assoc]

theorem openings_made (t : Trial) (outcome : Except Mismatch Scan) :
    openings (place t) + openings t.signature.name ≤ openings (ofOutcome t outcome).message := by
  -- Either message begins with the place, some words, the name and a mark.
  have hfront (words mark : String) :
      openings (place t) + openings t.signature.name ≤ openings (place t ++ words ++ t.signature.name ++ mark) := by
    calc openings (place t) + openings t.signature.name
        ≤ openings (place t ++ words) + openings t.signature.name :=
          Nat.add_le_add_right (openings_le_append ..) _
      _ = openings (place t ++ words ++ t.signature.name) := (openings_append ..).symm
      _ ≤ openings (place t ++ words ++ t.signature.name ++ mark) := openings_le_append ..
  cases outcome with
  | ok scan => exact Nat.le_trans (hfront _ _) (Nat.le_trans (openings_le_append ..) (openings_le_append ..))
  | error reason => exact Nat.le_trans (hfront _ _) (openings_le_append ..)

/-- The message of a trial that was made gives the descriptor of its method, and opens a bracket more than the message
of the same trial passed over. -/
theorem skipped_record_ne (t : Trial) (outcome : Except Mismatch Scan) :
    (skipped t).record ≠ (ofOutcome t outcome).record := by
  intro h
  have hmessage : (skipped t).message = (ofOutcome t outcome).message := congrArg Log.Record.message h
  have hmade := openings_made t outcome
  have hdescriptor := openings_descriptor_pos t.method
  rw [← hmessage, openings_skipped, place, openings_append] at hmade
  omega

/-- What is logged of a trial: that it was passed over, if the name was taken, and else its outcome. The record alone
tells which of these it was. -/
structure Tells (e : Event) (t : Trial) (taken : Prop) : Prop where
  level : e.record.level = .trace
  skipped : taken → e = .skipped t
  made : ¬taken → e = .ofOutcome t (t.signature.compare t.method)
  record_skipped : e.record = (Event.skipped t).record ↔ taken
  record_made : ∀ outcome, e.record = (Event.ofOutcome t outcome).record ↔
    ¬taken ∧ outcome.map Scan.window? = (t.signature.compare t.method).map Scan.window?

theorem tells_event (m : LocationMap) (t : Trial) :
    (t.event m).Tells t (m.contains t.signature.name = true) := by
  by_cases h : m.contains t.signature.name
  · have he : t.event m = .skipped t := if_pos h
    rw [he]
    exact ⟨rfl, fun _ => rfl, fun hn => absurd h hn, iff_of_true rfl h, fun outcome =>
      iff_of_false (skipped_record_ne t outcome) fun hmade => hmade.1 h⟩
  · have he : t.event m = .ofOutcome t (t.signature.compare t.method) := if_neg h
    rw [he]
    refine ⟨?_, fun hc => absurd hc h, fun _ => rfl, iff_of_false (skipped_record_ne t _).symm h, fun outcome => ?_⟩
    · cases t.signature.compare t.method <;> rfl
    · rw [record_ofOutcome_inj, and_iff_right h, eq_comm]

end Event

/-! ## All trials -/

/-- The events of placed trials, each with its place. -/
def trailFrom (m : LocationMap) : List (Place × Trial) → List (Place × Event)
  | [] => []
  | (p, t) :: ps => (p, t.event m) :: trailFrom (m.insertAll t.entry?.toList) ps

theorem trailFrom_map_fst (m : LocationMap) (ps : List (Place × Trial)) :
    (trailFrom m ps).map (·.1) = ps.map (·.1) := by
  induction ps generalizing m with
  | nil => rfl
  | cons x ps ih => rw [trailFrom, List.map_cons, ih, List.map_cons]

theorem trailFrom_map_snd (m : LocationMap) (ps : List (Place × Trial)) :
    (trailFrom m ps).map (·.2) = (tryAll m (ps.map (·.2))).events := by
  induction ps generalizing m with
  | nil => rfl
  | cons x ps ih => rw [trailFrom, List.map_cons, ih, List.map_cons, tryAll_cons]

/-- The name is in the map, or a trial at an earlier place enters it. -/
def EntersBefore (m : LocationMap) (ps : List (Place × Trial)) (p : Place) (name : String) : Prop :=
  m.contains name ∨ ∃ q u l, (q, u) ∈ ps ∧ q.Before p ∧ u.entry? = some (name, l)

theorem entersBefore_head {m : LocationMap} {p : Place} {t : Trial} {ps : List (Place × Trial)}
    (hp : ∀ x ∈ ps, p.Before x.1) {name : String} :
    EntersBefore m ((p, t) :: ps) p name ↔ m.contains name := by
  constructor
  · rintro (h | ⟨q, u, l, hq, hbefore, -⟩)
    · exact h
    · rcases List.mem_cons.mp hq with he | hq
      · obtain ⟨rfl, rfl⟩ := Prod.mk.inj he
        exact absurd hbefore (Place.Before.irrefl q)
      · exact absurd hbefore (hp _ hq).asymm
  · exact .inl

theorem entersBefore_tail {m : LocationMap} {p q : Place} {t : Trial} {ps : List (Place × Trial)}
    (hq : p.Before q) {name : String} :
    EntersBefore m ((p, t) :: ps) q name ↔ EntersBefore (m.insertAll t.entry?.toList) ps q name := by
  simp only [EntersBefore, LocationMap.contains_insertAll_entry?, List.mem_cons, or_assoc]
  refine or_congr_right ?_
  constructor
  · rintro ⟨r, u, l, he | hr, hbefore, hentry⟩
    · obtain ⟨rfl, rfl⟩ := Prod.mk.inj he
      exact .inl ⟨l, hentry⟩
    · exact .inr ⟨r, u, l, hr, hbefore, hentry⟩
  · rintro (⟨l, hentry⟩ | ⟨r, u, l, hr, hbefore, hentry⟩)
    · exact ⟨p, t, l, .inl rfl, hq, hentry⟩
    · exact ⟨r, u, l, .inr hr, hbefore, hentry⟩

theorem mem_trailFrom {m : LocationMap} {ps : List (Place × Trial)} (hps : ps.Pairwise fun x y => x.1.Before y.1)
    {p : Place} {e : Event} (h : (p, e) ∈ trailFrom m ps) :
    ∃ t, (p, t) ∈ ps ∧ e.Tells t (EntersBefore m ps p t.signature.name) := by
  induction ps generalizing m with
  | nil => cases h
  | cons x ps ih =>
      obtain ⟨q, t⟩ := x
      rw [List.pairwise_cons] at hps
      rcases List.mem_cons.mp h with he | h
      · obtain ⟨rfl, rfl⟩ := Prod.mk.inj he
        refine ⟨t, List.mem_cons_self, ?_⟩
        rw [entersBefore_head hps.1]
        exact Event.tells_event m t
      · obtain ⟨u, hu, htells⟩ := ih hps.2 h
        refine ⟨u, List.mem_cons_of_mem _ hu, ?_⟩
        rw [entersBefore_tail (hps.1 _ hu)]
        exact htells

/-! ## The trail of a search -/

/-- The class, the method and the signature of the trial are those at the place. -/
def TrialAt (classes : List JavaClass) (signatures : List Signature) (p : Place) (t : Trial) : Prop :=
  classes[p.owner]? = some t.owner ∧ t.owner.methods[p.method]? = some t.method ∧
    signatures[p.signature]? = some t.signature

theorem TrialAt.unique {p : Place} {t u : Trial} (ht : TrialAt classes signatures p t)
    (hu : TrialAt classes signatures p u) : t = u := by
  obtain ⟨c, m, s⟩ := t
  obtain ⟨c', m', s'⟩ := u
  obtain ⟨hc, hm, hs⟩ := ht
  obtain ⟨hc', hm', hs'⟩ := hu
  obtain rfl : c = c' := Option.some.inj (hc.symm.trans hc')
  obtain rfl : m = m' := Option.some.inj (hm.symm.trans hm')
  obtain rfl : s = s' := Option.some.inj (hs.symm.trans hs')
  rfl

/-- A signature of that name has a success at an earlier place. -/
def TakenBefore (classes : List JavaClass) (signatures : List Signature) (p : Place) (name : String) : Prop :=
  ∃ q l, q.Before p ∧ SucceedsAt classes signatures q name l

theorem entersBefore_placedTrials {p : Place} {name : String} :
    EntersBefore .empty (placedTrials classes signatures) p name ↔ TakenBefore classes signatures p name := by
  simp only [EntersBefore, TakenBefore, ← mem_successes, successes, List.mem_filterMap, Prod.exists,
    Option.map_eq_some_iff, Prod.mk.injEq]
  constructor
  · rintro (h | ⟨q, u, l, hq, hbefore, hentry⟩)
    · simp [LocationMap.contains, LocationMap.empty] at h
    · exact ⟨q, l, hbefore, q, u, hq, name, l, hentry, rfl, rfl, rfl⟩
  · rintro ⟨q, l, hbefore, _, u, hq, _, _, hentry, rfl, rfl, rfl⟩
    exact .inr ⟨_, u, _, hq, hbefore, hentry⟩

/-- An event for each trial, in the order of their places. -/
structure Trail (classes : List JavaClass) (signatures : List Signature) (trail : List (Place × Event)) : Prop where
  ordered : trail.Pairwise fun x y => x.1.Before y.1
  places : ∀ p, p ∈ trail.map (·.1) ↔ ∃ t, TrialAt classes signatures p t
  tells : ∀ p e t, (p, e) ∈ trail → TrialAt classes signatures p t →
    e.Tells t (TakenBefore classes signatures p t.signature.name)

theorem trailFrom_placedTrials (classes : List JavaClass) (signatures : List Signature) :
    Trail classes signatures (trailFrom .empty (placedTrials classes signatures)) := by
  refine ⟨?_, ?_, ?_⟩
  · have hplaces : ((trailFrom .empty (placedTrials classes signatures)).map (·.1)).Pairwise Place.Before := by
      rw [trailFrom_map_fst]
      exact List.pairwise_map.mpr placedTrials_pairwise
    exact List.pairwise_map.mp hplaces
  · intro p
    rw [trailFrom_map_fst]
    constructor
    · intro h
      obtain ⟨⟨p, t⟩, ht, rfl⟩ := List.mem_map.mp h
      exact ⟨t, mem_placedTrials.mp ht⟩
    · rintro ⟨t, ht⟩
      exact List.mem_map.mpr ⟨(p, t), mem_placedTrials.mpr ht, rfl⟩
  · intro p e t h ht
    obtain ⟨u, hu, htells⟩ := mem_trailFrom placedTrials_pairwise h
    obtain rfl := ht.unique (mem_placedTrials.mp hu)
    rw [entersBefore_placedTrials] at htells
    exact htells

theorem trials_length (classes : List JavaClass) (signatures : List Signature) :
    (trials classes signatures).length = signatures.length * (classes.flatMap (·.methods)).length := by
  induction classes with
  | nil => rfl
  | cons c classes ih =>
      have hclass : (c.methods.flatMap fun m => signatures.map fun s => (⟨c, m, s⟩ : Trial)).length =
          signatures.length * c.methods.length := by
        simp [List.length_flatMap, List.map_const', Nat.mul_comm]
      rw [trials, List.flatMap_cons, List.length_append, hclass, ← trials, ih, List.flatMap_cons, List.length_append,
        Nat.mul_add]

theorem Trail.level_eq {trail : List (Place × Event)} (h : Trail classes signatures trail) {e : Event}
    (he : e ∈ trail.map (·.2)) : e.record.level = .trace := by
  obtain ⟨⟨p, e⟩, hmem, rfl⟩ := List.mem_map.mp he
  obtain ⟨t, ht⟩ := (h.places p).mp (List.mem_map_of_mem hmem)
  exact (h.tells p e t hmem ht).level

/-- The events of the trials, before the names without an entry are reported. -/
theorem searchInOrder_events :
    (searchInOrder classes signatures).events =
      (trailFrom .empty (placedTrials classes signatures)).map (·.2) := by
  rw [trailFrom_map_snd, placedTrials_map_snd, searchInOrder]

theorem searchInOrder_event_level {e : Event} (h : e ∈ (searchInOrder classes signatures).events) :
    e.record.level = .trace := by
  rw [searchInOrder_events] at h
  exact (trailFrom_placedTrials _ _).level_eq h

theorem searchInOrder_events_length :
    (searchInOrder classes signatures).events.length =
      signatures.length * (classes.flatMap (·.methods)).length := by
  rw [searchInOrder_events, List.length_map, ← List.length_map (·.1), trailFrom_map_fst, List.length_map,
    ← List.length_map (·.2), placedTrials_map_snd, trials_length]

theorem searchInOrder_matches :
    (searchInOrder classes signatures).events.filterMap Event.found? =
      (searchInOrder classes signatures).map.entries :=
  (tryAll_entries .empty (trials classes signatures)).symm

theorem Event.unresolved_record_inj {name name' : String}
    (h : (Event.unresolved name).record = (Event.unresolved name').record) : name = name' := by
  have hmessage : "Failed to resolve signature " ++ name = "Failed to resolve signature " ++ name' :=
    congrArg Log.Record.message h
  exact (String.append_right_inj _).mp hmessage

theorem LocationMap.mem_unresolved {m : LocationMap} {name : String} :
    name ∈ m.unresolved signatures ↔ name ∈ signatures.map (·.name) ∧ ¬m.contains name := by
  simp [unresolved]

theorem finish_countP_trace {s : Search} (h : ∀ e ∈ s.events, e.record.level = .trace) :
    ((s.finish signatures).events.map Event.record).countP (fun r => r.level = .trace) = s.events.length := by
  rw [List.countP_map, Search.finish, List.countP_append, List.countP_eq_length.mpr, List.countP_eq_zero.mpr,
    Nat.add_zero]
  · intro e he
    obtain ⟨name, -, rfl⟩ := List.mem_map.mp he
    nofun
  · intro e he
    exact decide_eq_true (h e he)

theorem finish_filter_error {s : Search} (h : ∀ e ∈ s.events, e.record.level = .trace) :
    ((s.finish signatures).events.map Event.record).filter (fun r => r.level = .error) =
      (s.map.unresolved signatures).map fun name => (Event.unresolved name).record := by
  rw [Search.finish, List.map_append, List.filter_append, List.filter_eq_nil_iff.mpr, List.filter_eq_self.mpr,
    List.nil_append, List.map_map]
  · rfl
  · intro r hr
    obtain ⟨e, he, rfl⟩ := List.mem_map.mp hr
    obtain ⟨name, -, rfl⟩ := List.mem_map.mp he
    rfl
  · intro r hr
    obtain ⟨e, he, rfl⟩ := List.mem_map.mp hr
    simp [h e he]

theorem mem_finish_records {s : Search} (h : ∀ e ∈ s.events, e.record.level = .trace) {name : String} :
    (Event.unresolved name).record ∈ (s.finish signatures).events.map Event.record ↔
      name ∈ s.map.unresolved signatures := by
  have hlevel : (Event.unresolved name).record.level = .error := rfl
  have hfilter : (Event.unresolved name).record ∈ (s.finish signatures).events.map Event.record ↔
      (Event.unresolved name).record ∈
        ((s.finish signatures).events.map Event.record).filter fun r => r.level = .error := by
    rw [List.mem_filter, and_iff_left (decide_eq_true hlevel)]
  rw [hfilter, finish_filter_error h, List.mem_map]
  constructor
  · rintro ⟨name', hname', he⟩
    rw [← Event.unresolved_record_inj he]
    exact hname'
  · intro hname
    exact ⟨name, hname, rfl⟩

/-- A search leaves one event for each trial, in the order of the places, and then one for each name without an entry,
in the order of the signatures. The matches among them are the entries of the map, and the errors are the names without
an entry. -/
theorem resolve_events (strategy : Strategy) (classes : List JavaClass) (signatures : List Signature) :
    let search := resolve strategy classes signatures
    let records := search.events.map Event.record
    (∃ trail : List (Place × Event), Trail classes signatures trail ∧
        search.events = trail.map (·.2) ++ (search.map.unresolved signatures).map .unresolved) ∧
      records.countP (fun r => r.level = .trace) = signatures.length * (classes.flatMap (·.methods)).length ∧
      records.filter (fun r => r.level = .error) =
        (search.map.unresolved signatures).map (fun name => (Event.unresolved name).record) ∧
      search.events.filterMap Event.found? = search.map.entries ∧
      ∀ name, (Event.unresolved name).record ∈ records ↔
        name ∈ signatures.map (·.name) ∧ ¬search.map.contains name := by
  rw [resolve_eq_sequential]
  refine ⟨⟨_, trailFrom_placedTrials _ _, ?_⟩, ?_, ?_, ?_, fun name => ?_⟩
  · rw [← searchInOrder_events]
    rfl
  · rw [resolve, finish_countP_trace fun e he => searchInOrder_event_level he, searchInOrder_events_length]
  · exact finish_filter_error fun e he => searchInOrder_event_level he
  · have hnames (names : List String) : (names.map Event.unresolved).filterMap Event.found? = [] := by
      simp [List.filterMap_map, Event.found?]
    rw [resolve, Search.finish, List.filterMap_append, hnames, List.append_nil,
      searchInOrder_matches]
  · rw [resolve, mem_finish_records fun e he => searchInOrder_event_level he, LocationMap.mem_unresolved]
    rfl

end MethodSearch
