import MethodSearch.Log.Record
import MethodSearch.Signature.Compare

/-!
# Locations and events

Where a signature was found, and the table of all that were: one entry for each name, in the order of discovery. An
entry is never replaced. Every method is tried with every signature. A trial is made, with one outcome or the other, or
left out because the name of the signature is taken, and what was not found is reported in the end.
-/

namespace MethodSearch

open Bytecode

structure Location where
  owner : JavaClass
  method : Method
  scan : Scan
  deriving Repr, DecidableEq

def Location.window? (l : Location) : Option Window :=
  l.scan.window?

/-- Locations by the name of their signature, the first one found first. -/
structure LocationMap where
  entries : List (String × Location)
  deriving Repr, DecidableEq

namespace LocationMap

def empty : LocationMap :=
  ⟨[]⟩

def find? (m : LocationMap) (name : String) : Option Location :=
  (m.entries.find? (·.1 == name)).map (·.2)

def contains (m : LocationMap) (name : String) : Bool :=
  m.entries.any (·.1 == name)

/-- Adds an entry behind the others, unless the name has one. -/
def insert (m : LocationMap) (name : String) (l : Location) : LocationMap :=
  if m.contains name then m else ⟨m.entries ++ [(name, l)]⟩

def size (m : LocationMap) : Nat :=
  m.entries.length

def names (m : LocationMap) : List String :=
  m.entries.map (·.1)

/-- The names of the signatures without an entry, in the order of the signatures. -/
def unresolved (m : LocationMap) (signatures : List Signature) : List String :=
  (signatures.map (·.name)).filter fun name => !m.contains name

end LocationMap

/-! ## Events -/

/-- A method of a class and a signature to try it with. -/
structure Trial where
  owner : JavaClass
  method : Method
  signature : Signature
  deriving Repr, DecidableEq

inductive Event where
  | matched (trial : Trial) (scan : Scan)
  | rejected (trial : Trial) (reason : Mismatch)
  | skipped (trial : Trial)
  | unresolved (name : String)
  deriving Repr, DecidableEq

namespace Event

def ofOutcome (t : Trial) : Except Mismatch Scan → Event
  | .ok scan => .matched t scan
  | .error reason => .rejected t reason

def level : Event → Log.Level
  | .unresolved _ => .error
  | _ => .trace

/-- The window of a scan as the messages give it. -/
def windowText : Option Window → String
  | none => "None"
  | some w => "Some(Window \x7b start: " ++ Nat.repr w.start ++ ", end: " ++ Nat.repr w.stop ++ " \x7d)"

def place (t : Trial) : String :=
  t.owner.name ++ "." ++ t.method.name ++ t.method.descriptor

def message : Event → String
  | .matched t scan =>
      place t ++ " matches " ++ t.signature.name ++ " (window " ++ windowText scan.window? ++ ")"
  | .rejected t reason => place t ++ " rejected for " ++ t.signature.name ++ ": " ++ reason.message
  | .skipped t =>
      t.signature.name ++ " already resolved, skipping " ++ t.owner.name ++ "." ++ t.method.name
  | .unresolved name => "Failed to resolve signature " ++ name

def record (e : Event) : Log.Record :=
  ⟨e.level, .resolver, e.message⟩

end Event

end MethodSearch
