import MethodSearch.Proofs.Json.Document
import MethodSearch.Proofs.Json.Indented
import MethodSearch.Proofs.Json.Kept
import MethodSearch.Proofs.Json.Printable
import MethodSearch.Report.Print
import MethodSearch.Report.Read

/-!
# Reports read back

A report whose counts and positions fit their bits is read back from either of its texts. The text on one line has no
control characters, whatever the strings of the report hold.
-/

namespace MethodSearch

open Json

structure Window.Bounded (w : Window) : Prop where
  start : w.start < countBound
  stop : w.stop < countBound

structure ReportEntry.Bounded (e : ReportEntry) : Prop where
  window : ∀ w, e.window = some w → w.Bounded
  occurrences : ∀ n, e.occurrences = some n → n < countBound

structure Statistics.Bounded (s : Statistics) : Prop where
  total : s.total < countBound
  resolved : s.resolved < countBound
  unresolved : s.unresolved < countBound
  ambiguous : s.ambiguous < countBound

/-- Counts and positions fit the bits they are read with. -/
structure Report.Bounded (r : Report) : Prop where
  statistics : r.statistics.Bounded
  resolved : ∀ e ∈ r.resolved, e.Bounded

theorem natural_count {n : Nat} (h : n < countBound) : (Document.ofValue (.ofNat n)).natural countBound = .ok n :=
  Document.natural_ofNat h (Nat.le_refl _)

theorem WindowDraft.read_toJson {w : Window} (h : w.Bounded) : layout.read (.ofValue w.toJson) = .ok w := by
  refine Layout.read_record (s := ⟨some w.start, some w.stop⟩) (by decide) rfl ?_ rfl
  simp only [layout, fields, List.map_cons, List.map_nil, Layout.storeItems, natural_count h.start,
    natural_count h.stop]
  rfl

theorem ReportEntryDraft.read_toJson {e : ReportEntry} (h : e.Bounded) :
    layout.read (.ofValue e.toJson) = .ok e := by
  have hwindow : (Document.ofValue (.ofOption Window.toJson e.window)).optional WindowDraft.layout.read =
      .ok e.window :=
    Document.optional_ofOption (fun _ => nofun) fun w hw => WindowDraft.read_toJson (h.window w hw)
  have hinstructions : (Document.ofValue (.ofList .string e.instructions)).list (·.text) = .ok e.instructions :=
    Document.list_ofList fun _ _ => rfl
  have hoccurrences : (Document.ofValue (.ofOption .ofNat e.occurrences)).optional (·.natural countBound) =
      .ok e.occurrences :=
    Document.optional_ofOption (fun _ => nofun) fun n hn => natural_count (h.occurrences n hn)
  refine Layout.read_record (s := ⟨some e.signature, some e.owner, some e.method, some e.descriptor, some e.access,
    some e.window, some e.instructions, some e.occurrences⟩) (by decide) rfl ?_ rfl
  simp only [layout, fields, List.map_cons, List.map_nil, Layout.storeItems, hwindow, hinstructions, hoccurrences]
  rfl

theorem StatisticsDraft.read_toJson {s : Statistics} (h : s.Bounded) : layout.read (.ofValue s.toJson) = .ok s := by
  refine Layout.read_record (s := ⟨some s.total, some s.resolved, some s.unresolved, some s.ambiguous⟩) (by decide)
    rfl ?_ rfl
  simp only [layout, fields, List.map_cons, List.map_nil, Layout.storeItems, natural_count h.total,
    natural_count h.resolved, natural_count h.unresolved, natural_count h.ambiguous]
  rfl

theorem ReportDraft.read_toJson {r : Report} (h : r.Bounded) : layout.read (.ofValue r.toJson) = .ok r := by
  have hresolved : (Document.ofValue (.ofList ReportEntry.toJson r.resolved)).list ReportEntryDraft.layout.read =
      .ok r.resolved := Document.list_ofList fun e he => ReportEntryDraft.read_toJson (h.resolved e he)
  have hunresolved : (Document.ofValue (.ofList .string r.unresolved)).list (·.text) = .ok r.unresolved :=
    Document.list_ofList fun _ _ => rfl
  refine Layout.read_record (s := ⟨some r.version, some r.statistics, some r.resolved, some r.unresolved⟩) (by decide)
    rfl ?_ rfl
  simp only [layout, fields, List.map_cons, List.map_nil, Layout.storeItems, StatisticsDraft.read_toJson h.statistics,
    hresolved, hunresolved]
  rfl

/-! ## What is read fits -/

/-- A number that may not be there fits. -/
def Fits (n : Option Nat) : Prop :=
  ∀ k, n = some k → k < countBound

theorem fits_none : Fits none :=
  nofun

theorem fits_some {n : Nat} : Fits (some n) ↔ n < countBound := by
  simp [Fits]

theorem fits_of_natural {d : Document} {n : Nat} (h : d.natural countBound = .ok n) : Fits (some n) :=
  fits_some.mpr (Document.lt_of_natural h)

namespace WindowDraft

structure Bounded (s : WindowDraft) : Prop where
  start : Fits s.start
  stop : Fits s.stop

theorem kept_bounded : Layout.Kept Bounded fields := by
  simp only [fields, Layout.kept_cons_iff]
  refine ⟨?_, ?_, Layout.kept_nil⟩
  · intro s d s' hs h
    obtain ⟨n, hn, ⟨⟩⟩ := Except.bind_eq_ok_iff.mp h
    exact ⟨fits_of_natural hn, hs.stop⟩
  · intro s d s' hs h
    obtain ⟨n, hn, ⟨⟩⟩ := Except.bind_eq_ok_iff.mp h
    exact ⟨hs.start, fits_of_natural hn⟩

theorem bounded_of_read {d : Document} {w : Window} (h : layout.read d = .ok w) : w.Bounded := by
  have hclose (s : WindowDraft) (w : Window) (hs : s.Bounded) (h : s.close = some w) : w.Bounded := by
    obtain ⟨start, hstart, h⟩ := Option.bind_eq_some_iff.mp h
    obtain ⟨stop, hstop, ⟨⟩⟩ := Option.bind_eq_some_iff.mp h
    exact ⟨hs.start _ hstart, hs.stop _ hstop⟩
  exact Layout.of_read kept_bounded ⟨fits_none, fits_none⟩ hclose hclose h

end WindowDraft

namespace ReportEntryDraft

structure Bounded (s : ReportEntryDraft) : Prop where
  window : ∀ w, s.window = some (some w) → w.Bounded
  occurrences : ∀ n, s.occurrences = some (some n) → n < countBound

theorem kept_bounded : Layout.Kept Bounded fields := by
  simp only [fields, Layout.kept_cons_iff]
  refine ⟨?_, ?_, ?_, ?_, ?_, ?_, ?_, ?_, Layout.kept_nil⟩
  case refine_6 =>
    intro s d s' hs h
    obtain ⟨window, hwindow, ⟨⟩⟩ := Except.bind_eq_ok_iff.mp h
    refine ⟨fun w hw => ?_, hs.occurrences⟩
    obtain ⟨d, hd⟩ := Document.exists_read_of_optional hwindow (Option.some.inj hw)
    exact WindowDraft.bounded_of_read hd
  case refine_8 =>
    intro s d s' hs h
    obtain ⟨occurrences, hoccurrences, ⟨⟩⟩ := Except.bind_eq_ok_iff.mp h
    refine ⟨hs.window, fun n hn => ?_⟩
    obtain ⟨d, hd⟩ := Document.exists_read_of_optional hoccurrences (Option.some.inj hn)
    exact Document.lt_of_natural hd
  -- The other fields hold texts.
  all_goals
    intro s d s' hs h
    obtain ⟨_, -, ⟨⟩⟩ := Except.bind_eq_ok_iff.mp h
    exact ⟨hs.window, hs.occurrences⟩

theorem bounded_of_closeRow {s : ReportEntryDraft} {e : ReportEntry} (hs : s.Bounded) (h : s.closeRow = some e) :
    e.Bounded := by
  obtain ⟨signature, -, h⟩ := Option.bind_eq_some_iff.mp h
  obtain ⟨owner, -, h⟩ := Option.bind_eq_some_iff.mp h
  obtain ⟨method, -, h⟩ := Option.bind_eq_some_iff.mp h
  obtain ⟨descriptor, -, h⟩ := Option.bind_eq_some_iff.mp h
  obtain ⟨access, -, h⟩ := Option.bind_eq_some_iff.mp h
  obtain ⟨window, hwindow, h⟩ := Option.bind_eq_some_iff.mp h
  obtain ⟨instructions, -, h⟩ := Option.bind_eq_some_iff.mp h
  obtain ⟨occurrences, hoccurrences, ⟨⟩⟩ := Option.bind_eq_some_iff.mp h
  exact ⟨fun w hw => hs.window w (hw ▸ hwindow), fun n hn => hs.occurrences n (hn ▸ hoccurrences)⟩

theorem bounded_of_read {d : Document} {e : ReportEntry} (h : layout.read d = .ok e) : e.Bounded := by
  refine Layout.of_read kept_bounded ⟨nofun, nofun⟩ (fun s e hs h => ?_) (fun _ _ => bounded_of_closeRow) h
  refine bounded_of_closeRow ⟨fun w hw => hs.window w ?_, fun n hn => hs.occurrences n ?_⟩ h
  · exact Option.join_eq_some_iff.mp (Option.some.inj hw)
  · exact Option.join_eq_some_iff.mp (Option.some.inj hn)

end ReportEntryDraft

namespace StatisticsDraft

structure Bounded (s : StatisticsDraft) : Prop where
  total : Fits s.total
  resolved : Fits s.resolved
  unresolved : Fits s.unresolved
  ambiguous : Fits s.ambiguous

theorem kept_bounded : Layout.Kept Bounded fields := by
  simp only [fields, Layout.kept_cons_iff]
  refine ⟨?_, ?_, ?_, ?_, Layout.kept_nil⟩
  all_goals
    intro s d s' hs h
    obtain ⟨n, hn, ⟨⟩⟩ := Except.bind_eq_ok_iff.mp h
    have hfits := fits_of_natural hn
  · exact ⟨hfits, hs.resolved, hs.unresolved, hs.ambiguous⟩
  · exact ⟨hs.total, hfits, hs.unresolved, hs.ambiguous⟩
  · exact ⟨hs.total, hs.resolved, hfits, hs.ambiguous⟩
  · exact ⟨hs.total, hs.resolved, hs.unresolved, hfits⟩

theorem bounded_of_read {d : Document} {s : Statistics} (h : layout.read d = .ok s) : s.Bounded := by
  have hclose (s : StatisticsDraft) (t : Statistics) (hs : s.Bounded) (h : s.close = some t) : t.Bounded := by
    obtain ⟨total, htotal, h⟩ := Option.bind_eq_some_iff.mp h
    obtain ⟨resolved, hresolved, h⟩ := Option.bind_eq_some_iff.mp h
    obtain ⟨unresolved, hunresolved, h⟩ := Option.bind_eq_some_iff.mp h
    obtain ⟨ambiguous, hambiguous, ⟨⟩⟩ := Option.bind_eq_some_iff.mp h
    exact ⟨hs.total _ htotal, hs.resolved _ hresolved, hs.unresolved _ hunresolved, hs.ambiguous _ hambiguous⟩
  exact Layout.of_read kept_bounded ⟨fits_none, fits_none, fits_none, fits_none⟩ hclose hclose h

end StatisticsDraft

namespace ReportDraft

structure Bounded (s : ReportDraft) : Prop where
  statistics : ∀ t, s.statistics = some t → t.Bounded
  resolved : ∀ es, s.resolved = some es → ∀ e ∈ es, e.Bounded

theorem kept_bounded : Layout.Kept Bounded fields := by
  simp only [fields, Layout.kept_cons_iff]
  refine ⟨?_, ?_, ?_, ?_, Layout.kept_nil⟩
  all_goals
    intro s d s' hs h
    obtain ⟨_, hread, ⟨⟩⟩ := Except.bind_eq_ok_iff.mp h
  · exact ⟨hs.statistics, hs.resolved⟩
  · refine ⟨?_, hs.resolved⟩
    rintro _ ⟨⟩
    exact StatisticsDraft.bounded_of_read hread
  · refine ⟨hs.statistics, ?_⟩
    rintro _ ⟨⟩ e he
    obtain ⟨d, hd⟩ := Document.exists_read_of_list hread he
    exact ReportEntryDraft.bounded_of_read hd
  · exact ⟨hs.statistics, hs.resolved⟩

theorem bounded_of_read {d : Document} {r : Report} (h : layout.read d = .ok r) : r.Bounded := by
  have hclose (s : ReportDraft) (r : Report) (hs : s.Bounded) (h : s.close = some r) : r.Bounded := by
    obtain ⟨version, -, h⟩ := Option.bind_eq_some_iff.mp h
    obtain ⟨statistics, hstatistics, h⟩ := Option.bind_eq_some_iff.mp h
    obtain ⟨resolved, hresolved, h⟩ := Option.bind_eq_some_iff.mp h
    obtain ⟨unresolved, -, ⟨⟩⟩ := Option.bind_eq_some_iff.mp h
    exact ⟨hs.statistics _ hstatistics, hs.resolved _ hresolved⟩
  exact Layout.of_read kept_bounded ⟨nofun, nofun⟩ hclose hclose h

end ReportDraft

/-! ## Texts -/

namespace Report

variable {r : Report}

theorem bounded_of_parse {text : String} (h : parse text = .ok r) : r.Bounded := by
  obtain ⟨d, hd⟩ := exists_read_of_decode h
  exact ReportDraft.bounded_of_read hd

theorem parse_render (h : r.Bounded) (indented : Bool) : parse (r.render indented) = .ok r := by
  cases indented with
  | true => exact (decode_indented _ _).trans (ReportDraft.read_toJson h)
  | false => exact (decode_compact _ _).trans (ReportDraft.read_toJson h)

/-- A text that is read as a report may be written again, in either form. -/
theorem parse_render_of_parse {text : String} (h : parse text = .ok r) (indented : Bool) :
    parse (r.render indented) = .ok r :=
  parse_render (bounded_of_parse h) indented

/-- Either text of a report is read back as the report, and what was read is written as the same text again. So is what
was read of any other text. The text on one line has no line breaks and no other control characters, whatever the report
holds. -/
theorem reads_back (r : Report) :
    (r.Bounded → ∀ indented : Bool, parse (r.render indented) = .ok r ∧
      ∀ again : Bool, (parse (r.render indented)).map (render again) = .ok (r.render again)) ∧
      (∀ text, parse text = .ok r → ∀ indented : Bool, parse (r.render indented) = .ok r) ∧
      ∀ c ∈ (r.render false).toList, 0x20 ≤ c.toNat := by
  refine ⟨fun h indented => ?_, fun text => parse_render_of_parse, ?_⟩
  · have hparse := parse_render h indented
    exact ⟨hparse, fun again => by rw [hparse, Except.map]⟩
  · show ∀ c ∈ (String.ofList r.toJson.chars).toList, _
    rw [String.toList_ofList]
    exact r.toJson.printable_chars

/-- A report with control characters and marks in its strings, an empty list and the largest position. -/
def oddReport : Report :=
  ⟨"1\x00\n\"\\é𝄞", ⟨2, 1, 1, 0⟩, [⟨"s", "a/b", "<init>", "()V", "", some ⟨0, UInt64.size - 1⟩, [], none⟩],
    ["\x1f", ""]⟩

theorem reads_back_odd :
    oddReport.Bounded ∧
      parse (oddReport.render true) = .ok oddReport ∧
      parse (oddReport.render false) = .ok oddReport ∧
      (parse (oddReport.render true)).map (render true) = .ok (oddReport.render true) ∧
      ∀ c ∈ (oddReport.render false).toList, 0x20 ≤ c.toNat := by
  obtain ⟨hread, hagain, hprintable⟩ := reads_back oddReport
  have hbounded : oddReport.Bounded := by
    refine ⟨⟨by decide, by decide, by decide, by decide⟩, ?_⟩
    rintro e (_ | ⟨_, ⟨⟩⟩)
    refine ⟨?_, nofun⟩
    rintro w ⟨⟩
    exact ⟨by decide, by decide⟩
  have hindented := (hread hbounded true).1
  exact ⟨hbounded, hindented, hagain _ hindented false, (hread hbounded true).2 true, hprintable⟩

end Report

end MethodSearch
