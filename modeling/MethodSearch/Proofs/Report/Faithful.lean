import Mathlib.Data.List.Forall2
import MethodSearch.Proofs.Pattern.Packing
import MethodSearch.Proofs.Pattern.Tokens
import MethodSearch.Proofs.Resolution.OneClass
import MethodSearch.Report.Print

/-!
# Reports are faithful

A report lists each signature once, with those that have an entry in one list and the others in another. What it says of
a signature that was found is read off the method that was found: its excerpt holds the pattern, from the first opcode
of it to the last.
-/

namespace MethodSearch

open Bytecode

variable {classes : List JavaClass} {signatures : List Signature} {s : Signature} {l : Location} {p : Pattern}
  {body : List Instruction}

theorem LocationMap.contains_eq_isSome (map : LocationMap) (name : String) :
    map.contains name = (map.find? name).isSome := by
  rw [contains, find?, Option.isSome_map, List.isSome_find?]

namespace Report

/-- Entries come from the signatures that have one, in their order. -/
theorem entries_forall₂ (map : LocationMap) (signatures : List Signature) :
    List.Forall₂ (fun s e => s ∈ signatures ∧ ∃ l, map.find? s.name = some l ∧ e = .ofLocation s l)
      (signatures.filter fun s => map.contains s.name) (entries map signatures) := by
  induction signatures with
  | nil => exact .nil
  | cons s signatures ih =>
      have hrest := ih.imp fun t e ht => And.imp_left (List.mem_cons_of_mem s) ht
      have hcontains := map.contains_eq_isSome s.name
      cases h : map.find? s.name with
      | none =>
          rw [h] at hcontains
          simp only [entries, List.filter_cons, List.filterMap_cons, hcontains, h]
          exact hrest
      | some l =>
          rw [h] at hcontains
          simp only [entries, List.filter_cons, List.filterMap_cons, hcontains, h]
          exact .cons ⟨List.mem_cons_self, l, h, rfl⟩ hrest

theorem entries_map_signature (map : LocationMap) (signatures : List Signature) :
    (entries map signatures).map (·.signature) = (signatures.map (·.name)).filter map.contains := by
  have hnames : (signatures.map (·.name)).filter map.contains =
      (signatures.filter fun s => map.contains s.name).map (·.name) := by
    rw [List.filter_map]
    rfl
  rw [hnames, eq_comm, ← List.forall₂_eq_eq_eq, List.forall₂_map_left_iff, List.forall₂_map_right_iff]
  refine (entries_forall₂ map signatures).imp ?_
  rintro s e ⟨-, l, -, rfl⟩
  rfl

theorem entries_length (map : LocationMap) (signatures : List Signature) :
    (entries map signatures).length = ((signatures.map (·.name)).filter map.contains).length := by
  rw [← entries_map_signature, List.length_map]

theorem length_eq_entries_add_unresolved (map : LocationMap) (signatures : List Signature) :
    signatures.length = (entries map signatures).length + (map.unresolved signatures).length := by
  have hsplit := List.length_eq_countP_add_countP map.contains (l := signatures.map (·.name))
  rw [List.length_map] at hsplit
  simpa [entries_length, LocationMap.unresolved, List.countP_eq_length_filter] using hsplit

/-- The signatures are split into those with an entry and those without, and counted. -/
structure Partitions (r : Report) (map : LocationMap) (signatures : List Signature) : Prop where
  resolved : r.resolved.map (·.signature) = (signatures.map (·.name)).filter map.contains
  unresolved : r.unresolved = (signatures.map (·.name)).filter fun name => !map.contains name
  resolved_count : r.statistics.resolved = r.resolved.length
  unresolved_count : r.statistics.unresolved = r.unresolved.length
  ambiguous_count : r.statistics.ambiguous = r.resolved.countP (·.isAmbiguous)
  total : r.statistics.total = signatures.length
  total_eq : r.statistics.total = r.statistics.resolved + r.statistics.unresolved
  complete : r.isComplete ↔ r.statistics.resolved = r.statistics.total

theorem build_partitions (map : LocationMap) (signatures : List Signature) :
    (build map signatures).Partitions map signatures := by
  have htotal := length_eq_entries_add_unresolved map signatures
  refine ⟨entries_map_signature map signatures, rfl, rfl, rfl, rfl, rfl, htotal, ?_⟩
  have hcomplete : (build map signatures).isComplete ↔ (map.unresolved signatures).length = 0 := by
    rw [isComplete, List.isEmpty_iff, List.length_eq_zero_iff]
    rfl
  rw [hcomplete]
  show _ ↔ (entries map signatures).length = signatures.length
  omega

/-- The list that was searched for has all names of the map. -/
theorem entries_length_eq_size (strategy : Strategy) (hnames : (signatures.map (·.name)).Nodup) :
    (entries (resolve strategy classes signatures).map signatures).length =
      (resolve strategy classes signatures).map.size := by
  rw [entries_length, resolve_map]
  have hperm : ((signatures.map (·.name)).filter (searchInOrder classes signatures).map.contains).Perm
      (searchInOrder classes signatures).map.names := by
    -- Neither list repeats a name, so that they need only have the same ones.
    refine (List.perm_ext_iff_of_nodup (hnames.filter _) searchInOrder_names_nodup).mpr fun name => ?_
    rw [List.mem_filter, LocationMap.contains_iff, and_iff_right_iff_imp]
    intro hname
    obtain ⟨p, l, -, -, s, hs, rfl, -⟩ := searchInOrder_contains_iff.mp (LocationMap.contains_iff.mpr hname)
    exact List.mem_map_of_mem (List.mem_of_getElem? hs)
  rw [hperm.length_eq, LocationMap.names, List.length_map, LocationMap.size]

end Report

/-- The instructions of a window written out, where the window holds a pattern from its first opcode to its last. -/
structure Excerpt (body : List Instruction) (p : Pattern) (w : Window) (lines : List String) : Prop where
  bounds : w.start < w.stop ∧ w.stop ≤ body.length
  lines_eq : lines = (w.slice body).map Instruction.render
  first : ∃ code : Opcode, (w.slice body).head? = some (.op code) ∧ lines.head? = some code.render
  last : ∃ code : Opcode, (w.slice body).getLast? = some (.op code) ∧ lines.getLast? = some code.render
  pattern : " ".intercalate ((withoutMarkers (w.slice body)).map Instruction.render) = p.render
  parsed : Pattern.parse (" ".intercalate ((withoutMarkers (w.slice body)).map Instruction.render)) = .ok p

theorem Bytecode.OpcodeAt.getElem? {k : Nat} (h : OpcodeAt body k) : ∃ code, body[k]? = some (.op code) := by
  obtain ⟨code, h⟩ := h
  obtain ⟨i, hi, hcode⟩ := Option.bind_eq_some_iff.mp h
  exact ⟨code, hi.trans (congrArg some (opcode?_eq_some_iff.mp hcode))⟩

theorem FirstAt.excerpt {k n : Nat} (h : FirstAt body p.opcodes k n) (hne : p.opcodes ≠ []) :
    Excerpt body p ⟨k, k + n⟩ (((⟨k, k + n⟩ : Window).slice body).map Instruction.render) := by
  have hpos := h.stop.pos hne
  have hstop := h.stop_le hne
  have hpattern : " ".intercalate
      ((Bytecode.withoutMarkers ((⟨k, k + n⟩ : Window).slice body)).map Instruction.render) = p.render := by
    rw [withoutMarkers_eq_map, h.slice_opcodes, List.map_map]
    rfl
  refine ⟨⟨Nat.lt_add_of_pos_right hpos, hstop⟩, rfl, ?_, ?_, hpattern, ?_⟩
  · obtain ⟨code, hcode⟩ := h.start.getElem?
    have hhead : ((⟨k, k + n⟩ : Window).slice body).head? = some (.op code) := by
      rw [Window.slice_add, List.head?_take, if_neg (by omega), List.head?_drop, hcode]
    exact ⟨code, hhead, by rw [List.head?_map, hhead]; rfl⟩
  · obtain ⟨code, hcode⟩ := (h.opcodeAt_last hne).getElem?
    have hlast : ((⟨k, k + n⟩ : Window).slice body).getLast? = some (.op code) := by
      rw [List.getLast?_eq_getElem?, Window.slice_add, List.length_take, List.length_drop,
        Nat.min_eq_left (by omega), List.getElem?_take_of_lt (by omega), List.getElem?_drop,
        ← Nat.add_sub_assoc hpos, hcode]
    exact ⟨code, hlast, by rw [List.getLast?_map, hlast]; rfl⟩
  · rw [hpattern, p.parse_render]

/-! ## Entries -/

/-- What an entry says of a signature that was found at a location. -/
structure ReportEntry.Describes (e : ReportEntry) (s : Signature) (l : Location) : Prop where
  signature : e.signature = s.name
  place : e.owner = l.owner.name ∧ e.method = l.method.name ∧ e.descriptor = l.method.descriptor ∧
    e.access = l.method.access.render
  unconstrained : e.window = none ∧ e.instructions = [] ∧ e.occurrences = none ↔ s.opcodes = .any
  empty : s.opcodes = .exactly ⟨[]⟩ → e.window = some ⟨0, 0⟩ ∧ e.instructions = [] ∧ e.occurrences = some 0
  nonempty : ∀ p, s.opcodes = .exactly p → p.opcodes ≠ [] →
    (∃ w, e.window = some w ∧ Excerpt l.method.body p w e.instructions) ∧
      (∃ n, e.occurrences = some n ∧ 1 ≤ n) ∧
      (e.isAmbiguous ↔ HoldsTwice (opcodesOf l.method.body) p.opcodes)

namespace ReportEntry

theorem ofLocation_any (h : s.compare l.method = .ok l.scan) (hany : s.opcodes = .any) :
    (ofLocation s l).window = none ∧ (ofLocation s l).instructions = [] ∧ (ofLocation s l).occurrences = none := by
  have hwindow : l.window? = none := by
    rw [Location.window?, Signature.unscanned_of_compare h hany]
    rfl
  simp [ofLocation, hwindow, hany, Constraint.value?]

theorem ofLocation_empty (h : s.compare l.method = .ok l.scan) (hp : s.opcodes = .exactly ⟨[]⟩) :
    (ofLocation s l).window = some ⟨0, 0⟩ ∧ (ofLocation s l).instructions = [] ∧
      (ofLocation s l).occurrences = some 0 := by
  obtain ⟨hscan, -⟩ := Signature.scan_of_compare h hp
  have hwindow : l.window? = some .placeholder := by
    rw [Location.window?, ← hscan]
    rfl
  simp [ofLocation, hwindow, hp, Constraint.value?, Window.placeholder, Window.slice, MethodSearch.occurrences, windows]

theorem ofLocation_occurrences (hp : s.opcodes = .exactly p) :
    (ofLocation s l).occurrences = some (MethodSearch.occurrences l.method.body p.opcodes) := by
  simp [ofLocation, hp, Constraint.value?]

theorem ofLocation_nonempty (h : s.compare l.method = .ok l.scan) (hp : s.opcodes = .exactly p)
    (hne : p.opcodes ≠ []) :
    ∃ w, (ofLocation s l).window = some w ∧ Excerpt l.method.body p w (ofLocation s l).instructions := by
  obtain ⟨hscan, hfound⟩ := Signature.scan_of_compare h hp
  cases hl : l.scan with
  | notFound => exact absurd hl hfound
  | unscanned => exact absurd (hscan.trans hl) (scan_ne_unscanned _ _)
  | found w =>
      obtain ⟨k, n, rfl, hfirst⟩ := scan_firstAt hne (hscan.trans hl)
      have hwindow : l.window? = some ⟨k, k + n⟩ := by
        rw [Location.window?, hl]
        rfl
      refine ⟨_, hwindow, ?_⟩
      simpa only [ofLocation, hwindow] using hfirst.excerpt hne

theorem one_le_ofLocation_occurrences (h : s.compare l.method = .ok l.scan) (hp : s.opcodes = .exactly p)
    (hne : p.opcodes ≠ []) : 1 ≤ MethodSearch.occurrences l.method.body p.opcodes := by
  obtain ⟨hscan, hfound⟩ := Signature.scan_of_compare h hp
  rw [one_le_occurrences_iff hne, ← scan_ne_notFound_iff, hscan]
  exact hfound

theorem ofLocation_isAmbiguous_iff (hp : s.opcodes = .exactly p) (hne : p.opcodes ≠ []) :
    (ofLocation s l).isAmbiguous ↔ HoldsTwice (opcodesOf l.method.body) p.opcodes := by
  rw [isAmbiguous, ofLocation_occurrences hp, ← two_le_occurrences_iff hne, decide_eq_true_iff]
  rfl

/-- The entry of a method that has the signature. -/
theorem ofLocation_describes (h : s.compare l.method = .ok l.scan) : (ofLocation s l).Describes s l := by
  refine ⟨rfl, ⟨rfl, rfl, rfl, rfl⟩, ⟨?_, ofLocation_any h⟩, ofLocation_empty h, ?_⟩
  · rintro ⟨-, -, hnone⟩
    cases hp : s.opcodes with
    | any => rfl
    | exactly p => cases (ofLocation_occurrences hp).symm.trans hnone
  · intro p hp hne
    exact ⟨ofLocation_nonempty h hp hne,
      ⟨_, ofLocation_occurrences hp, one_le_ofLocation_occurrences h hp hne⟩, ofLocation_isAmbiguous_iff hp hne⟩

end ReportEntry

/-! ## The report of a search -/

theorem compare_of_find? (strategy : Strategy) (hnames : (signatures.map (·.name)).Nodup) (hs : s ∈ signatures)
    (h : (resolve strategy classes signatures).map.find? s.name = some l) : s.compare l.method = .ok l.scan := by
  have honce : (signatures.map (·.name)).count s.name = 1 := by
    rw [hnames.count, if_pos (List.mem_map_of_mem hs)]
  obtain ⟨k, hk⟩ := exists_onceAt hs honce
  obtain ⟨i, j, hfirst⟩ := (hk.find?_eq_some_iff strategy).mp h
  exact hfirst.1.2.2

/-- The report of a search with names that stand once. It lists the signatures with an entry and those without, both in
their order, as many of the first as the map has entries, and every one of them as it was found. For any other list of
signatures the report on the same map lists each of them once too. -/
theorem report_faithful (strategy : Strategy) (classes : List JavaClass)
    (hnames : (signatures.map (·.name)).Nodup) :
    let map := (resolve strategy classes signatures).map
    let report := Report.build map signatures
    report.Partitions map signatures ∧
      report.statistics.resolved = map.size ∧
      List.Forall₂ (fun s e => ∃ l, map.find? s.name = some l ∧ e.Describes s l)
        (signatures.filter fun s => map.contains s.name) report.resolved ∧
      ∀ others, (Report.build map others).Partitions map others := by
  intro map report
  refine ⟨Report.build_partitions map signatures, Report.entries_length_eq_size strategy hnames, ?_,
    Report.build_partitions map⟩
  refine (Report.entries_forall₂ map signatures).imp ?_
  rintro s e ⟨hs, l, hfind, rfl⟩
  exact ⟨l, hfind, ReportEntry.ofLocation_describes (compare_of_find? strategy hnames hs hfind)⟩

/-- A class with a method that holds `42 180` twice, each time with a marker inside. -/
def pairClass : JavaClass :=
  ⟨"pair", [⟨"both", .void, [], ⟨1⟩, [.label 0, .op 42, .frame, .op 180, .op 42, .line 3, .op 180, .op 177]⟩]⟩

/-- A pattern, the empty pattern, no constraint at all, and a pattern that no method holds. -/
def pairSignatures : List Signature :=
  [⟨"reads", .any, .any, .any, .exactly ⟨[42, 180]⟩⟩, ⟨"empty", .any, .any, .any, .exactly ⟨[]⟩⟩,
    .unconstrained "anything", ⟨"adds", .any, .any, .any, .exactly ⟨[96]⟩⟩]

theorem report_faithful_pair :
    (pairSignatures.map (·.name)).Nodup ∧
      let map := (resolve .sequential [pairClass] pairSignatures).map
      let report := Report.build map pairSignatures
      report.Partitions map pairSignatures ∧ report.statistics.resolved = map.size ∧
        report.unresolved = ["adds"] ∧ ¬report.isComplete ∧
        ∃ e ∈ report.resolved, e.signature = "reads" ∧ e.isAmbiguous ∧
          ∃ w, e.window = some w ∧
            Excerpt [.label 0, .op 42, .frame, .op 180, .op 42, .line 3, .op 180, .op 177] ⟨[42, 180]⟩ w
              e.instructions := by
  have hnames : (pairSignatures.map (·.name)).Nodup := by decide
  obtain ⟨hpartitions, hsize, hentries, -⟩ := report_faithful .sequential [pairClass] hnames
  have hfound : (pairSignatures.filter fun s =>
      (resolve .sequential [pairClass] pairSignatures).map.contains s.name) = pairSignatures.take 3 := by decide
  have hlocation : (resolve .sequential [pairClass] pairSignatures).map.find? "reads" =
      some ⟨pairClass, pairClass.methods[0], .found ⟨1, 4⟩⟩ := by decide
  have hunresolved : (Report.build (resolve .sequential [pairClass] pairSignatures).map pairSignatures).unresolved =
      ["adds"] := by decide
  refine ⟨hnames, hpartitions, hsize, hunresolved, by rw [Report.isComplete, hunresolved]; decide, ?_⟩
  rw [hfound] at hentries
  obtain ⟨e, es, ⟨l, hfind, he⟩, -, hlist⟩ := List.forall₂_cons_left_iff.mp hentries
  obtain rfl := Option.some.inj (hfind.symm.trans hlocation)
  obtain ⟨⟨w, hw, hexcerpt⟩, -, hambiguous⟩ := he.nonempty ⟨[42, 180]⟩ rfl (by decide)
  refine ⟨e, hlist ▸ List.mem_cons_self, he.signature, hambiguous.mpr ⟨0, 2, ?_⟩, w, hw, hexcerpt⟩
  decide

end MethodSearch
