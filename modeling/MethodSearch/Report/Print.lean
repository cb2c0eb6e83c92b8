import MethodSearch.Json.Print
import MethodSearch.Resolution.Location

/-!
# Reports

What a search found, signature by signature: where each one is, the instructions in its window and how often the
method holds its pattern. A pattern that a method holds more than once is ambiguous. Every field is written, in the
order of declaration, on one line or on several.
-/

namespace MethodSearch

open Bytecode Json

structure ReportEntry where
  signature : String
  owner : String
  method : String
  descriptor : String
  access : String
  window : Option Window
  /-- The instructions inside the window, markers among them. -/
  instructions : List String
  /-- How often the method holds the pattern without overlaps. -/
  occurrences : Option Nat
  deriving Repr, DecidableEq

structure Statistics where
  total : Nat
  resolved : Nat
  unresolved : Nat
  ambiguous : Nat
  deriving Repr, DecidableEq

structure Report where
  version : String
  statistics : Statistics
  resolved : List ReportEntry
  unresolved : List String
  deriving Repr, DecidableEq

def programVersion : String := "1.0.0"

def ReportEntry.isAmbiguous (e : ReportEntry) : Bool :=
  match e.occurrences with
  | some n => 1 < n
  | none => false

def ReportEntry.ofLocation (s : Signature) (l : Location) : ReportEntry where
  signature := s.name
  owner := l.owner.name
  method := l.method.name
  descriptor := l.method.descriptor
  access := l.method.access.render
  window := l.window?
  instructions := match l.window? with
    | some w => (w.slice l.method.body).map Instruction.render
    | none => []
  occurrences := s.opcodes.value?.map fun p => MethodSearch.occurrences l.method.body p.opcodes

namespace Report

/-- The entries of the signatures that were found, in the order of the signatures. -/
def entries (map : LocationMap) (signatures : List Signature) : List ReportEntry :=
  signatures.filterMap fun s => (map.find? s.name).map (.ofLocation s)

def build (map : LocationMap) (signatures : List Signature) : Report :=
  let resolved := entries map signatures
  let unresolved := map.unresolved signatures
  ⟨programVersion,
    ⟨signatures.length, resolved.length, unresolved.length, resolved.countP (·.isAmbiguous)⟩,
    resolved, unresolved⟩

/-- Nothing is left to be found. -/
def isComplete (r : Report) : Bool :=
  r.unresolved.isEmpty

/-- The part of the signatures that was found, all of it where there are none. -/
def rate (r : Report) : Float :=
  if r.statistics.total = 0 then 1.0
  else Float.ofNat r.statistics.resolved / Float.ofNat r.statistics.total

end Report

/-! ## Writing -/

def Window.toJson (w : Window) : Value :=
  .object [("start", .ofNat w.start), ("end", .ofNat w.stop)]

def ReportEntry.toJson (e : ReportEntry) : Value :=
  .object [
    ("signature", .string e.signature),
    ("class", .string e.owner),
    ("method", .string e.method),
    ("descriptor", .string e.descriptor),
    ("access", .string e.access),
    ("window", .ofOption Window.toJson e.window),
    ("instructions", .ofList .string e.instructions),
    ("occurrences", .ofOption .ofNat e.occurrences)]

def Statistics.toJson (s : Statistics) : Value :=
  .object [
    ("total_signatures", .ofNat s.total),
    ("resolved", .ofNat s.resolved),
    ("unresolved", .ofNat s.unresolved),
    ("ambiguous", .ofNat s.ambiguous)]

namespace Report

def toJson (r : Report) : Value :=
  .object [
    ("version", .string r.version),
    ("statistics", r.statistics.toJson),
    ("resolved", .ofList ReportEntry.toJson r.resolved),
    ("unresolved", .ofList .string r.unresolved)]

def render (indented : Bool) (r : Report) : String :=
  if indented then r.toJson.indented else r.toJson.compact

end Report

end MethodSearch
