import MethodSearch.Resolution.Location

/-!
# Resolving signatures

Every method of every class is tried with every signature whose name is not taken yet. The first method that has
a signature takes its name, in the order of the classes, then of their methods, then of the signatures. The
trials may also all be made beforehand, class by class in any order, and be gone through afterwards.
-/

namespace MethodSearch

open Bytecode

/-- An order of the jobs from 0 up to `n`. -/
structure Schedule (n : Nat) where
  order : List Nat
  perm : order.Perm (List.range n)

namespace Schedule

variable {α : Type} {n : Nat}

/-- Jobs are dealt out to the workers in turn, and the workers follow one another. -/
def dealt (workers n : Nat) : Schedule n :=
  ⟨(List.range n).mergeSort fun i j => i % workers ≤ j % workers, List.mergeSort_perm ..⟩

/-- Does one job and keeps its result at the job's place. -/
def fill (job : Nat → Option α) (slots : List (Option α)) (i : Nat) : List (Option α) :=
  slots.set i (job i)

/-- The results in the order of the jobs, done in the order of the schedule. -/
def run (s : Schedule n) (job : Nat → Option α) : List α :=
  (s.order.foldl (fill job) (List.replicate n none)).filterMap id

end Schedule

structure Search where
  map : LocationMap
  events : List Event
  deriving Repr, DecidableEq

/-! ## One after another -/

/-- All trials: classes outermost, signatures innermost. -/
def trials (classes : List JavaClass) (signatures : List Signature) : List Trial :=
  classes.flatMap fun c => c.methods.flatMap fun m => signatures.map fun s => ⟨c, m, s⟩

def LocationMap.record (map : LocationMap) (t : Trial) (outcome : Except Mismatch Scan) : LocationMap :=
  match outcome with
  | .ok scan => map.insert t.signature.name ⟨t.owner, t.method, scan⟩
  | .error _ => map

/-- Makes the trials in order, leaving out those whose name is taken. -/
def tryAll (map : LocationMap) : List Trial → Search
  | [] => ⟨map, []⟩
  | t :: ts =>
      if map.contains t.signature.name then
        let rest := tryAll map ts
        ⟨rest.map, .skipped t :: rest.events⟩
      else
        let outcome := t.signature.compare t.method
        let rest := tryAll (map.record t outcome) ts
        ⟨rest.map, .ofOutcome t outcome :: rest.events⟩

def searchInOrder (classes : List JavaClass) (signatures : List Signature) : Search :=
  tryAll .empty (trials classes signatures)

/-- The outcomes of a class: one row for each method, one column for each signature. -/
def outcomes (signatures : List Signature) (c : JavaClass) : List (List (Except Mismatch Scan)) :=
  c.methods.map fun m => signatures.map fun s => s.compare m

/-- The outcomes of all classes, found in the order of a schedule. -/
def outcomeTable (classes : List JavaClass) (signatures : List Signature) (s : Schedule classes.length) :
    List (List (List (Except Mismatch Scan))) :=
  s.run fun i => classes[i]?.map (outcomes signatures)

/-- Trials with their outcomes, where the table has one for them. -/
def withOutcomes (classes : List JavaClass) (signatures : List Signature)
    (table : List (List (List (Except Mismatch Scan)))) : List (Trial × Except Mismatch Scan) :=
  (classes.zip table).flatMap fun (c, rows) =>
    (c.methods.zip rows).flatMap fun (m, row) =>
      (signatures.zip row).map fun (s, outcome) => (⟨c, m, s⟩, outcome)

/-- Goes through trials that were made, passing over those whose name is taken. -/
def mergeAll (map : LocationMap) : List (Trial × Except Mismatch Scan) → Search
  | [] => ⟨map, []⟩
  | (t, outcome) :: ts =>
      if map.contains t.signature.name then
        let rest := mergeAll map ts
        ⟨rest.map, .skipped t :: rest.events⟩
      else
        let rest := mergeAll (map.record t outcome) ts
        ⟨rest.map, .ofOutcome t outcome :: rest.events⟩

def searchBeforehand (classes : List JavaClass) (signatures : List Signature) (s : Schedule classes.length) :
    Search :=
  mergeAll .empty (withOutcomes classes signatures (outcomeTable classes signatures s))

inductive Strategy where
  | sequential
  | parallel (workers : Nat)
  deriving Repr, DecidableEq

/-- Adds an event for each signature that was not found. -/
def Search.finish (s : Search) (signatures : List Signature) : Search :=
  ⟨s.map, s.events ++ (s.map.unresolved signatures).map .unresolved⟩

def resolve (strategy : Strategy) (classes : List JavaClass) (signatures : List Signature) : Search :=
  match strategy with
  | .sequential => (searchInOrder classes signatures).finish signatures
  | .parallel workers =>
      (searchBeforehand classes signatures (.dealt workers classes.length)).finish signatures

/-- The first method of a class that has a signature, and the trials made on the way. Its window is the
placeholder. -/
def lookup (c : JavaClass) (s : Signature) : Option Location × List Event :=
  go c.methods
where
  go : List Method → Option Location × List Event
    | [] => (none, [])
    | m :: ms =>
        let outcome := s.compare m
        let event := Event.ofOutcome ⟨c, m, s⟩ outcome
        match outcome with
        | .ok _ => (some ⟨c, m, .found .placeholder⟩, [event])
        | .error _ =>
            let (found, events) := go ms
            (found, event :: events)

end MethodSearch
