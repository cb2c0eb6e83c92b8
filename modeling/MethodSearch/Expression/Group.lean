import MethodSearch.Expression.Cursor
import MethodSearch.Expression.Phrase

/-!
# Starts of groups

A parenthesis opens a group, which may have a name or flags, or sets flags for what follows.
-/

namespace MethodSearch.Expression.Group

/-- The start of a group, or flags that hold from here on. -/
inductive Opening where
  | group (change : FlagChange)
  | named (name : String) (span : Span)
  | flags (change : FlagChange)

/-- A flag or a negation, and where it stands. -/
abbrev Item := Option Flag × Nat

/-- The items up to a colon or a parenthesis, the last one first. -/
def items (seen : List Item) (offset : Nat) : List Char → Except Fault (List Item)
  | [] => .error ⟨.flagUnfinished, ⟨offset, offset⟩, none⟩
  | c :: rest =>
      if c == ':' || c == ')' then .ok seen
      else
        let here : Span := ⟨offset, offset + 1⟩
        let item : Option Flag := Flag.ofLetter? c
        if item.isNone && c != '-' then .error ⟨.flagUnknown, here, none⟩
        else match seen.find? (·.1 == item) with
          | some (_, o) =>
              .error ⟨if item.isNone then .flagNegatedTwice else .flagRepeated, here, some ⟨o, o + 1⟩⟩
          | none => items ((item, offset) :: seen) (offset + 1) rest

/-- What is set before the negation and cleared behind it. -/
def changeOf (seen : List Item) : FlagChange :=
  let flags (items : List Item) : List Flag := items.filterMap (·.1)
  ⟨flags (seen.reverse.takeWhile (·.1.isSome)), flags (seen.reverse.dropWhile (·.1.isSome))⟩

/-- Flags, which hold for the group or from here on. The cursor stands behind the question mark. -/
def flagged (c : Cursor) (question : Span) : Except Fault (Opening × Cursor) := do
  let seen ← items [] c.offset c.rest
  if let some (none, o) := seen.head? then
    throw ⟨.flagDangling, ⟨o, o + 1⟩, none⟩
  let stop := c.drop seen.length
  if stop.peek? != some ')' then
    return (.group (changeOf seen), stop.drop 1)
  if seen.isEmpty then
    throw ⟨.nothingRepeated, question, none⟩
  return (.flags (changeOf seen), stop.drop 1)

/-- Names begin with a letter or an underscore. What is not of ASCII counts as a letter. -/
def isNameStart (c : Char) : Bool :=
  c.isAlpha || c == '_' || 0x80 ≤ c.toNat

def isNamePart (c : Char) : Bool :=
  isNameStart c || c.isDigit || c == '.' || c == '[' || c == ']'

/-- How many characters of a name are as they should be. -/
def goodLength : List Char → Nat
  | [] => 0
  | c :: rest => if isNameStart c then (rest.takeWhile isNamePart).length + 1 else 0

/-- The name of a group. The cursor stands behind the angle bracket. -/
def name (c : Cursor) : Except Fault (Opening × Cursor) :=
  let name := c.rest.takeWhile (· != '>')
  let good := c.drop (goodLength name)
  let stop := c.drop name.length
  if good.offset < stop.offset then .error ⟨.nameCharacter, good.this, none⟩
  else if stop.rest.isEmpty then .error ⟨.nameUnfinished, stop.here, none⟩
  else if name.isEmpty then .error ⟨.nameEmpty, c.here, none⟩
  else .ok (.named (String.ofList name) (stop.since c.offset), stop.drop 1)

def lookArounds : List String :=
  ["?=", "?!", "?<=", "?<!"]

/-- Reads the start of a group. The cursor stands before its parenthesis. -/
def read (c : Cursor) : Except Fault (Opening × Cursor) :=
  let first := c.next
  match lookArounds.findSome? first.after?, first.after? "?P<", first.after? "?<", first.after? "?" with
  | some around, _, _, _ => .error ⟨.lookAround, around.since c.offset, none⟩
  | none, some c, _, _ | none, none, some c, _ => name c
  | none, none, none, some inside =>
      if inside.rest.isEmpty then .error ⟨.groupUnclosed, c.this, none⟩ else flagged inside first.here
  | none, none, none, none => .ok (.group {}, first)

end MethodSearch.Expression.Group
