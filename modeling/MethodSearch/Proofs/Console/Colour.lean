import MethodSearch.Console.Banner
import MethodSearch.Proofs.Text.Decoration
import MethodSearch.Report.Summary

/-!
# Colour is decoration

Summaries and banners say the same with colours and without them, as long as no name brings an escape of its own.
-/

namespace MethodSearch

open Text

/-- What a summary shows of an entry holds no escape. -/
structure ReportEntry.EscapeFree (e : ReportEntry) : Prop where
  signature : Text.EscapeFree e.signature
  owner : Text.EscapeFree e.owner
  method : Text.EscapeFree e.method
  descriptor : Text.EscapeFree e.descriptor

/-- The names in a report hold no escape. -/
structure Report.EscapeFree (r : Report) : Prop where
  resolved : ∀ e ∈ r.resolved, e.EscapeFree
  unresolved : ∀ name ∈ r.unresolved, Text.EscapeFree name

namespace Report

theorem escapeFree_windowText (w : Option Window) : Text.EscapeFree (windowText w) := by
  cases w with
  | none => decide
  | some w =>
      have hopening : Text.EscapeFree "[" := by decide
      exact (((hopening.append (.repr _)).append (by decide)).append (.repr _)).append (by decide)

theorem piece_countsLine (r : Report) : Piece fun look => countsLine look r := by
  have hlabel : Piece fun _ => "  Signatures: " := .text (by decide)
  have hresolved : Piece fun look => look.paint (.coloured .green) (Nat.repr r.statistics.resolved) :=
    .paint _ (.repr _)
  have hunresolved : Piece fun look =>
      if 0 < r.statistics.unresolved then look.paint (.coloured .red) (Nat.repr r.statistics.unresolved)
      else Nat.repr r.statistics.unresolved :=
    .ite (.paint _ (.repr _)) (.text (.repr _))
  exact hlabel |>.appendText (.repr _) |>.appendText (by decide) |>.append hresolved |>.appendText (by decide)
    |>.append hunresolved |>.appendText (by decide) |>.appendText (.fixed _ _) |>.appendText (by decide)

theorem piece_entryLine {e : ReportEntry} (h : e.EscapeFree) : Piece fun look => entryLine look e := by
  have hmark : Piece fun look =>
      if e.isAmbiguous then look.paint (.coloured .yellow) "[?]" else look.paint (.coloured .green) "[+]" :=
    .ite (.paint _ (by decide)) (.paint _ (by decide))
  have hwindow : Piece fun look => look.paint .faint (windowText e.window) := .paint _ (escapeFree_windowText _)
  exact hmark |>.appendText (by decide) |>.appendText (.padRight 24 h.signature) |>.appendText (by decide)
    |>.appendText h.owner |>.appendText (by decide) |>.appendText h.method |>.appendText h.descriptor
    |>.appendText (by decide) |>.append hwindow |>.appendText (by decide)

theorem piece_unresolvedLine {name : String} (h : Text.EscapeFree name) :
    Piece fun look => unresolvedLine look name := by
  have hmark : Piece fun look => look.paint (.coloured .red) "[!]" := .paint _ (by decide)
  have hnote : Piece fun look => look.paint (.coloured .red) "unresolved" := .paint _ (by decide)
  exact hmark |>.appendText (by decide) |>.appendText (.padRight 24 h) |>.appendText (by decide) |>.append hnote
    |>.appendText (by decide)

theorem piece_summary {r : Report} (h : r.EscapeFree) : Piece fun look => summary look r := by
  have htitle : Piece fun look => look.paint (.strong .cyan) "Resolution Summary" := .paint _ (by decide)
  have hrule : Piece fun look => look.paint (.coloured .cyan) (String.ofList (List.replicate 50 '=')) :=
    .paint _ (.replicate (by decide) 50)
  have hgap : Text.EscapeFree (if r.resolved.isEmpty then "" else "\n") := .ite (by decide) (by decide)
  have hresolved : Piece fun look => String.join (r.resolved.map (entryLine look)) :=
    .join fun e he => piece_entryLine (h.resolved e he)
  have hunresolved : Piece fun look => String.join (r.unresolved.map (unresolvedLine look)) :=
    .join fun name hname => piece_unresolvedLine (h.unresolved name hname)
  exact htitle |>.appendText (by decide) |>.append hrule |>.appendText (by decide) |>.append (piece_countsLine r)
    |>.appendText hgap |>.append hresolved |>.append hunresolved

end Report

/-! ## Banners -/

namespace Console.Banner

/-- The texts in a banner hold no escape. -/
structure EscapeFree (b : Banner) : Prop where
  title : Text.EscapeFree b.title
  subtitle : ∀ s ∈ b.subtitle, Text.EscapeFree s
  version : ∀ v ∈ b.version, Text.EscapeFree v

theorem piece_rule {left right : String} (hl : Text.EscapeFree left) (hr : Text.EscapeFree right) :
    Piece fun _ => rule left right :=
  .text ((hl.append (.replicate (by decide) _)).append hr)

theorem piece_row (style : Option Style) {s : String} (h : Text.EscapeFree s) :
    Piece fun look => row look style s := by
  have hwall : Piece fun _ => "│ " := .text (by decide)
  cases style with
  | none => exact hwall |>.appendText (.centre innerWidth h) |>.appendText (by decide)
  | some style => exact hwall |>.append (.paint style (.centre innerWidth h)) |>.appendText (by decide)

/-- The compartment for a version. -/
def versionDraws : Option String → List (Look → String)
  | some v => [fun _ => rule "├" "┤", fun look => row look (some (.coloured .green)) ("v" ++ v)]
  | none => []

/-- The lines, each drawn for itself. -/
def draws (b : Banner) : List (Look → String) :=
  [fun _ => rule "┌" "┐", fun look => row look (some (.strong .cyan)) b.title] ++
    (b.subtitle.map fun s (look : Look) => row look none s).toList ++ versionDraws b.version ++
    [fun _ => rule "└" "┘"]

theorem lines_eq_map (b : Banner) (look : Look) : b.lines look = b.draws.map (· look) := by
  obtain ⟨title, subtitle, version⟩ := b
  cases subtitle <;> cases version <;> rfl

theorem piece_versionDraws {version : Option String} (h : ∀ v ∈ version, Text.EscapeFree v) :
    ∀ draw ∈ versionDraws version, Piece draw := by
  cases version with
  | none => nofun
  | some v =>
      have hletter : Text.EscapeFree "v" := by decide
      have hrow := piece_row (some (.coloured .green)) (hletter.append (h v rfl))
      simp only [versionDraws, List.forall_mem_cons]
      exact ⟨piece_rule (by decide) (by decide), hrow, nofun⟩

theorem piece_of_mem_draws {b : Banner} (h : b.EscapeFree) : ∀ draw ∈ b.draws, Piece draw := by
  have hsubtitle : ∀ draw ∈ (b.subtitle.map fun s (look : Look) => row look none s).toList, Piece draw := by
    intro draw hdraw
    obtain ⟨s, hs, rfl⟩ := Option.map_eq_some_iff.mp (Option.mem_toList.mp hdraw)
    exact piece_row none (h.subtitle s hs)
  simp only [draws, List.forall_mem_append, List.forall_mem_cons]
  exact ⟨⟨⟨⟨piece_rule (by decide) (by decide), piece_row _ h.title, nofun⟩, hsubtitle⟩, piece_versionDraws h.version⟩,
    piece_rule (by decide) (by decide), nofun⟩

theorem piece_render {b : Banner} (h : b.EscapeFree) : Piece b.render := by
  have hlines : b.render = fun look => "\n".intercalate (b.draws.map (· look)) := by
    funext look
    rw [render, lines_eq_map]
  rw [hlines]
  exact .intercalate (by decide) (piece_of_mem_draws h)

end Console.Banner

/-- Summaries and banners without escapes in their names are only decorated by colours. -/
theorem colour_onlyDecorates {r : Report} {b : Console.Banner} (hr : r.EscapeFree) (hb : b.EscapeFree) :
    OnlyDecorates (fun look => r.summary look) ∧ OnlyDecorates b.render :=
  ⟨(Report.piece_summary hr).onlyDecorates, (Console.Banner.piece_render hb).onlyDecorates⟩

/-- A name that is found twice in one method and a name that is not found. -/
def mixedReport : Report :=
  ⟨programVersion, ⟨2, 1, 1, 1⟩, [⟨"add", "a/B", "f", "(II)I", "public", some ⟨0, 3⟩, [], some 2⟩], ["gone"]⟩

/-- With the banner of the program. The line of a name that is not found is drawn with escapes. -/
theorem colour_onlyDecorates_mixed :
    OnlyDecorates (fun look => mixedReport.summary look) ∧
      withoutStyles (Console.Banner.program.render ⟨true, true⟩) = Console.Banner.program.render ⟨false, true⟩ ∧
      ¬EscapeFree (Report.unresolvedLine ⟨true, true⟩ "gone") := by
  have hreport : mixedReport.EscapeFree := by
    constructor
    · exact List.forall_mem_singleton.mpr ⟨by decide, by decide, by decide, by decide⟩
    · decide
  have hbanner : Console.Banner.program.EscapeFree := ⟨by decide, by decide, by decide⟩
  have hboth := colour_onlyDecorates hreport hbanner
  exact ⟨hboth.1, hboth.2.stripped true, by decide +kernel⟩

end MethodSearch
