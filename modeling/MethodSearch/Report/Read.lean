import MethodSearch.Json.Layout
import MethodSearch.Json.Reader
import MethodSearch.Report.Print

/-!
# Reading reports

Counts and positions have 64 bits. The window and the occurrences of an entry may be missing from an object, but
not from an array.
-/

namespace MethodSearch

open Json

/-- Counts and positions are below this. -/
def countBound : Nat := UInt64.size

structure WindowDraft where
  start : Option Nat := none
  stop : Option Nat := none

namespace WindowDraft

def fields : List (LayoutField WindowDraft) := [
  ⟨"start", fun s d => do return { s with start := some (← d.natural countBound) }⟩,
  ⟨"end", fun s d => do return { s with stop := some (← d.natural countBound) }⟩]

def close (s : WindowDraft) : Option Window := do
  return ⟨← s.start, ← s.stop⟩

def layout : Layout WindowDraft Window :=
  ⟨fields, {}, close, close⟩

end WindowDraft

structure ReportEntryDraft where
  signature : Option String := none
  owner : Option String := none
  method : Option String := none
  descriptor : Option String := none
  access : Option String := none
  window : Option (Option Window) := none
  instructions : Option (List String) := none
  occurrences : Option (Option Nat) := none

namespace ReportEntryDraft

def fields : List (LayoutField ReportEntryDraft) := [
  ⟨"signature", fun s d => do return { s with signature := some (← d.text) }⟩,
  ⟨"class", fun s d => do return { s with owner := some (← d.text) }⟩,
  ⟨"method", fun s d => do return { s with method := some (← d.text) }⟩,
  ⟨"descriptor", fun s d => do return { s with descriptor := some (← d.text) }⟩,
  ⟨"access", fun s d => do return { s with access := some (← d.text) }⟩,
  ⟨"window", fun s d => do return { s with window := some (← d.optional WindowDraft.layout.read) }⟩,
  ⟨"instructions", fun s d => do return { s with instructions := some (← d.list (·.text)) }⟩,
  ⟨"occurrences", fun s d => do
    return { s with occurrences := some (← d.optional (·.natural countBound)) }⟩]

/-- All fields are there. -/
def closeRow (s : ReportEntryDraft) : Option ReportEntry := do
  return ⟨← s.signature, ← s.owner, ← s.method, ← s.descriptor, ← s.access, ← s.window, ← s.instructions,
    ← s.occurrences⟩

def close (s : ReportEntryDraft) : Option ReportEntry :=
  closeRow { s with window := some s.window.join, occurrences := some s.occurrences.join }

def layout : Layout ReportEntryDraft ReportEntry :=
  ⟨fields, {}, close, closeRow⟩

end ReportEntryDraft

structure StatisticsDraft where
  total : Option Nat := none
  resolved : Option Nat := none
  unresolved : Option Nat := none
  ambiguous : Option Nat := none

namespace StatisticsDraft

def fields : List (LayoutField StatisticsDraft) := [
  ⟨"total_signatures", fun s d => do return { s with total := some (← d.natural countBound) }⟩,
  ⟨"resolved", fun s d => do return { s with resolved := some (← d.natural countBound) }⟩,
  ⟨"unresolved", fun s d => do return { s with unresolved := some (← d.natural countBound) }⟩,
  ⟨"ambiguous", fun s d => do return { s with ambiguous := some (← d.natural countBound) }⟩]

def close (s : StatisticsDraft) : Option Statistics := do
  return ⟨← s.total, ← s.resolved, ← s.unresolved, ← s.ambiguous⟩

def layout : Layout StatisticsDraft Statistics :=
  ⟨fields, {}, close, close⟩

end StatisticsDraft

structure ReportDraft where
  version : Option String := none
  statistics : Option Statistics := none
  resolved : Option (List ReportEntry) := none
  unresolved : Option (List String) := none

namespace ReportDraft

def fields : List (LayoutField ReportDraft) := [
  ⟨"version", fun s d => do return { s with version := some (← d.text) }⟩,
  ⟨"statistics", fun s d => do return { s with statistics := some (← StatisticsDraft.layout.read d) }⟩,
  ⟨"resolved", fun s d => do return { s with resolved := some (← d.list ReportEntryDraft.layout.read) }⟩,
  ⟨"unresolved", fun s d => do return { s with unresolved := some (← d.list (·.text)) }⟩]

def close (s : ReportDraft) : Option Report := do
  return ⟨← s.version, ← s.statistics, ← s.resolved, ← s.unresolved⟩

def layout : Layout ReportDraft Report :=
  ⟨fields, {}, close, close⟩

end ReportDraft

def Report.parse (text : String) : Except Fault Report :=
  Json.decode ReportDraft.layout.read text

end MethodSearch
