import MethodSearch.Report.Print
import MethodSearch.Text.Count
import MethodSearch.Text.Duration
import MethodSearch.Text.Style

/-!
# Summaries

A report as a table for a terminal: the counts, a line for each signature that was found and one for each that
was not.
-/

namespace MethodSearch.Report

open Text

/-- The counts and the rate in percent. -/
def countsLine (look : Look) (r : Report) : String :=
  let unresolved := Nat.repr r.statistics.unresolved
  "  Signatures: " ++ Nat.repr r.statistics.total ++
    "  Resolved: " ++ look.paint (.coloured .green) (Nat.repr r.statistics.resolved) ++
    "  Unresolved: " ++
    (if 0 < r.statistics.unresolved then look.paint (.coloured .red) unresolved else unresolved) ++
    "  Rate: " ++ fixed 1 (r.rate * 100.0) ++ "%\n"

def windowText : Option Window → String
  | some w => "[" ++ Nat.repr w.start ++ ".." ++ Nat.repr w.stop ++ ")"
  | none => "-"

def entryLine (look : Look) (e : ReportEntry) : String :=
  (if e.isAmbiguous then look.paint (.coloured .yellow) "[?]" else look.paint (.coloured .green) "[+]") ++
    " " ++ padRight 24 e.signature ++ " " ++ e.owner ++ "." ++ e.method ++ e.descriptor ++ " " ++
    look.paint .faint (windowText e.window) ++ "\n"

def unresolvedLine (look : Look) (name : String) : String :=
  look.paint (.coloured .red) "[!]" ++ " " ++ padRight 24 name ++ " " ++
    look.paint (.coloured .red) "unresolved" ++ "\n"

def summary (look : Look) (r : Report) : String :=
  look.paint (.strong .cyan) "Resolution Summary" ++ "\n" ++
    look.paint (.coloured .cyan) (String.ofList (List.replicate 50 '=')) ++ "\n" ++
    countsLine look r ++
    (if r.resolved.isEmpty then "" else "\n") ++
    String.join (r.resolved.map (entryLine look)) ++
    String.join (r.unresolved.map (unresolvedLine look))

end MethodSearch.Report
