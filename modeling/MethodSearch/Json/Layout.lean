import MethodSearch.Json.Document

/-!
# Records

A record is an object whose keys are its fields, in any order and among other keys, or an array of its fields in
the order they are declared. Fields are kept in a draft until the record is closed.
-/

namespace MethodSearch.Json

/-- A field puts what it reads into the draft. -/
structure LayoutField (σ : Type) where
  name : String
  store : σ → Document → Except Fault σ

/-- How a record of type `α` is read by way of a draft of type `σ`. -/
structure Layout (σ α : Type) where
  fields : List (LayoutField σ)
  blank : σ
  /-- What an object with these fields stands for. -/
  close : σ → Option α
  /-- What an array with these fields stands for. -/
  closeRow : σ → Option α

namespace Layout

variable {σ α : Type}

def field? (l : Layout σ α) (name : String) : Option (LayoutField σ) :=
  l.fields.find? (·.name == name)

/-- Stores the members one by one. A known key that was seen before is refused before its value is read. -/
def storeMembers (l : Layout σ α) : List String → σ → List (Key × Document) → Except Fault σ
  | _, s, [] => .ok s
  | _, _, (.other, _) :: _ => .error .malformed
  | seen, s, (.text read, d) :: rest => do
      let name ← read
      match l.field? name with
      | none => do
          d.skim
          l.storeMembers seen s rest
      | some f =>
          if name ∈ seen then .error .misshapen
          else do
            let s ← f.store s d
            l.storeMembers (name :: seen) s rest

/-- Stores items in the order of the fields. The array may end early, but not go on. -/
def storeItems : List (LayoutField σ) → σ → List Document → Option Fault → Except Fault σ
  | [], _, _ :: _, _ => .error .malformed
  | _, s, [], stop => Document.closed stop s
  | f :: fs, s, d :: ds, stop => do
      let s ← f.store s d
      storeItems fs s ds stop

def finish (a : Option α) : Except Fault α :=
  match a with
  | some a => .ok a
  | none => .error .misshapen

def read (l : Layout σ α) : Document → Except Fault α
  | .object members stop => do
      let s ← l.storeMembers [] l.blank members
      let s ← Document.closed stop s
      finish (l.close s)
  | .array items stop => do
      let s ← storeItems l.fields l.blank items stop
      finish (l.closeRow s)
  | d => .error d.mismatch

end Layout

end MethodSearch.Json
