import MethodSearch.Bytecode.JavaClass

/-!
# Scanning a body

The first place where a body holds a list of opcodes one after another, stepping over markers. A window starts
and ends at an opcode: markers inside it belong to it, markers around it do not.
-/

namespace MethodSearch

open Bytecode

/-- The positions of a body from `start` up to `stop`, which is not among them. -/
structure Window where
  start : Nat
  stop : Nat
  deriving Repr, DecidableEq

namespace Window

/-- Stands where a window is due and none is meant. -/
def placeholder : Window :=
  ⟨0, 0⟩

def size (w : Window) : Nat :=
  w.stop - w.start

def isEmpty (w : Window) : Bool :=
  w.start == w.stop

/-- The part of a list inside the window. -/
def slice {α : Type} (w : Window) (body : List α) : List α :=
  (body.take w.stop).drop w.start

end Window

/-- The outcome of a scan. `unscanned` is a success without a window: nothing was looked for. -/
inductive Scan where
  | found (window : Window)
  | unscanned
  | notFound
  deriving Repr, DecidableEq

namespace Scan

def isFound : Scan → Bool
  | .notFound => false
  | _ => true

def window? : Scan → Option Window
  | .found w => some w
  | _ => none

end Scan

/-- The position after the last opcode, where the opcodes follow each other from `pos` on. -/
def matchEnd? (pos : Nat) : List Instruction → List Opcode → Option Nat
  | _, [] => some pos
  | [], _ :: _ => none
  | i :: body, p :: ps =>
      match i.opcode? with
      | none => matchEnd? (pos + 1) body (p :: ps)
      | some code => if code = p then matchEnd? (pos + 1) body ps else none

/-- The first window at or after `pos`. Only an opcode starts one. -/
def firstWindow? (opcodes : List Opcode) (pos : Nat) : List Instruction → Option Window
  | [] => none
  | i :: body =>
      if i.isMarker then firstWindow? opcodes (pos + 1) body
      else match matchEnd? pos (i :: body) opcodes with
        | some stop => some ⟨pos, stop⟩
        | none => firstWindow? opcodes (pos + 1) body

/-- No opcodes are found everywhere, and their window is the placeholder. -/
def scan (body : List Instruction) (opcodes : List Opcode) : Scan :=
  if opcodes.isEmpty then .found .placeholder
  else match firstWindow? opcodes 0 body with
    | some w => .found w
    | none => .notFound

/-- The windows from `pos` on, each taken as early as the one before it lets it. The first `skip` instructions
belong to a window already taken. -/
def windowsFrom (opcodes : List Opcode) (skip pos : Nat) : List Instruction → List Window
  | [] => []
  | i :: body =>
      match skip with
      | k + 1 => windowsFrom opcodes k (pos + 1) body
      | 0 =>
          if i.isMarker then windowsFrom opcodes 0 (pos + 1) body
          else match matchEnd? pos (i :: body) opcodes with
            | some stop => ⟨pos, stop⟩ :: windowsFrom opcodes (stop - (pos + 1)) (pos + 1) body
            | none => windowsFrom opcodes 0 (pos + 1) body

/-- Windows that do not overlap, from left to right. No opcodes have none. -/
def windows (body : List Instruction) (opcodes : List Opcode) : List Window :=
  if opcodes.isEmpty then [] else windowsFrom opcodes 0 0 body

/-- How often a body holds the opcodes without overlaps. -/
def occurrences (body : List Instruction) (opcodes : List Opcode) : Nat :=
  (windows body opcodes).length

end MethodSearch
