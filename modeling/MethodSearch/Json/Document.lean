import MethodSearch.Json.Numeral

/-!
# Values and documents

The members of an object keep their order, and a name may repeat. A document is what a text says as far as it can be
read. The one place where it stops being JSON is a broken leaf, or the end of a container that is not closed. A document
is then read as one type or another: whichever fault a reader meets first, going from left to right, is the one it
reports.
-/

namespace MethodSearch.Json

inductive Value where
  | null
  | bool (b : Bool)
  | number (n : Numeral)
  | string (s : String)
  | array (items : List Value)
  | object (members : List (String × Value))
  deriving Repr

namespace Value

def ofNat (n : Nat) : Value :=
  .number (.ofNat n)

def ofOption {α : Type} (f : α → Value) : Option α → Value
  | none => .null
  | some a => f a

def ofList {α : Type} (f : α → Value) (as : List α) : Value :=
  .array (as.map f)

/-- The natural number below a bound that the value is. -/
def natural? (bound : Nat) : Value → Option Nat
  | .number n => n.natural?.filter (· < bound)
  | _ => none

def string? : Value → Option String
  | .string s => some s
  | _ => none

/-- The strings of an array that holds nothing else. -/
def strings? : Value → Option (List String)
  | .array items => items.mapM string?
  | _ => none

end Value

/-- What stands before a colon. -/
inductive Key where
  /-- A quoted string, if its characters are one. -/
  | text (read : Except Fault String)
  /-- Something that is no string. -/
  | other

/-- How a place without a value looks to different readers. -/
structure Break where
  /-- To one that takes a name. -/
  asName : Fault
  /-- To one that reads a value. -/
  asValue : Fault
  /-- To one that passes over a value. -/
  skimmed : Fault
  deriving Repr, DecidableEq

def Break.always (f : Fault) : Break :=
  ⟨f, f, f⟩

inductive Document where
  | null
  | bool (b : Bool)
  | number (n : Numeral)
  /-- A quoted string. It may hold half a surrogate pair. -/
  | string (read : Except Fault String)
  /-- The items, and the fault that keeps the bracket from closing. -/
  | array (items : List Document) (stop : Option Fault)
  /-- The members, and the fault that keeps the brace from closing. -/
  | object (members : List (Key × Document)) (stop : Option Fault)
  | broken (b : Break)

namespace Document

/-- How many containers may stand inside each other where a value is read. -/
def maxDepth : Nat := 127

/-- The fault of a container that is not closed. -/
def closed {α : Type} (stop : Option Fault) (a : α) : Except Fault α :=
  match stop with
  | none => .ok a
  | some f => .error f

/-- Passes over a value that nobody wants. -/
def skim : Document → Except Fault Unit
  | .array _ stop => closed stop ()
  | .object _ stop => closed stop ()
  | .broken b => .error b.skimmed
  | _ => .ok ()

/-- The fault of a reader that wants something else than what is there. A leaf is read before it is refused. -/
def mismatch : Document → Fault
  | .number n => if n.inRange then .misshapen else .malformed
  | .string (.error f) => f
  | .broken b => b.asValue
  | _ => .misshapen

mutual

/-- The whole value, which stands inside so many containers. -/
def value (depth : Nat) : Document → Except Fault Value
  | .null => .ok .null
  | .bool b => .ok (.bool b)
  | .number n => if n.inRange then .ok (.number n) else .error .malformed
  | .string read => read.map .string
  | .array items stop => do
      if maxDepth ≤ depth then .error .malformed
      let vs ← values (depth + 1) items
      closed stop (.array vs)
  | .object members stop => do
      if maxDepth ≤ depth then .error .malformed
      let ms ← memberValues (depth + 1) members
      closed stop (.object ms)
  | .broken b => .error b.asValue

def values (depth : Nat) : List Document → Except Fault (List Value)
  | [] => .ok []
  | d :: ds => do
      let v ← d.value depth
      let vs ← values depth ds
      .ok (v :: vs)

def memberValues (depth : Nat) : List (Key × Document) → Except Fault (List (String × Value))
  | [] => .ok []
  | (.other, _) :: _ => .error .malformed
  | (.text read, d) :: rest => do
      let name ← read
      let v ← d.value depth
      let ms ← memberValues depth rest
      .ok ((name, v) :: ms)

end

/-! ## Reading as a type -/

def natural (bound : Nat) : Document → Except Fault Nat
  | .number n => match n.natural?.filter (· < bound) with
    | some k => .ok k
    | none => .error (Document.number n).mismatch
  | d => .error d.mismatch

def text : Document → Except Fault String
  | .string read => read
  | d => .error d.mismatch

def boolean : Document → Except Fault Bool
  | .bool b => .ok b
  | d => .error d.mismatch

/-- Nothing where `null` stands. -/
def optional {α : Type} (f : Document → Except Fault α) : Document → Except Fault (Option α)
  | .null => .ok none
  | d => (f d).map some

def list {α : Type} (f : Document → Except Fault α) : Document → Except Fault (List α)
  | .array items stop => do closed stop (← items.mapM f)
  | d => .error d.mismatch

/-- A value read whole and then taken as one of several shapes. -/
def anyOf {α : Type} (depth : Nat) (f : Value → Option α) (d : Document) : Except Fault α := do
  match f (← d.value depth) with
  | some a => .ok a
  | none => .error .misshapen

/-- A constant given by its name: as a string, or as the only key of an object whose value is `null`. -/
def named {α : Type} (f : String → Option α) (d : Document) : Except Fault α :=
  let find (name : String) : Except Fault α := match f name with
    | some a => .ok a
    | none => .error .misshapen
  match d with
  | .string read => read.bind find
  | .object [] none => .error .malformed
  | .object [] (some fault) => .error fault
  | .object ((.other, _) :: _) _ => .error .malformed
  | .object ((.text read, payload) :: rest) stop => do
      let a ← find (← read)
      match payload with
      | .null => match rest with
        | [] => closed stop a
        | _ :: _ => .error .malformed
      | payload => .error payload.mismatch
  | .broken b => .error b.asName
  | _ => .error .malformed

end Document

end MethodSearch.Json
