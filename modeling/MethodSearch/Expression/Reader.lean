import MethodSearch.Expression.Bracket
import MethodSearch.Expression.Group

/-!
# Reading expressions

A text is read from left to right with the open groups on a stack.
-/

namespace MethodSearch.Expression.Reader

/-- Choices that are read, and the items of the one being read. The last ones come first. -/
structure Row where
  choices : List Phrase := []
  items : List (Span × Phrase) := []

namespace Row

def add (r : Row) (item : Span × Phrase) : Row :=
  { r with items := item :: r.items }

def choice (r : Row) : Phrase :=
  Phrase.ofList (r.items.reverse.map (·.2))

def split (r : Row) : Row :=
  ⟨r.choice :: r.choices, []⟩

def phrase (r : Row) : Phrase :=
  Phrase.ofChoices (r.choice :: r.choices).reverse

end Row

structure OpenGroup where
  outside : Row
  span : Span
  change : FlagChange
  /-- Whether the text outside is verbose. -/
  verbose : Bool

structure State where
  row : Row := {}
  groups : List OpenGroup := []
  names : List (String × Span) := []

def State.add (s : State) (item : Span × Phrase) : State :=
  { s with row := s.row.add item }

structure Count where
  least : Nat
  most : Option Nat

/-- A decimal number, or why there is none, and what comes behind it. -/
def decimal (c : Cursor) : Except Fault Nat × Cursor :=
  let first := c.skipBlanks
  let (digits, stop) := first.takeWhile Char.isDigit
  let span := stop.since first.offset
  let n := digits.foldl (fun n d => 10 * n + (d.toNat - 48)) 0
  let number : Except Fault Nat :=
    if digits.isEmpty then .error ⟨.countEmpty, span, none⟩
    else if 0x100000000 ≤ n then .error ⟨.countTooLarge, span, none⟩
    else .ok n
  (number, stop.skipBlanks)

def countNumbers (start : Nat) (c : Cursor) : Except Fault (Count × Cursor) := do
  if c.rest.isEmpty then throw ⟨.countUnclosed, c.since start, none⟩
  let (least, c) := decimal c
  if c.rest.isEmpty then throw ⟨.countUnclosed, c.since start, none⟩
  if c.peek? != some ',' then
    let n ← least
    return (⟨n, some n⟩, c)
  let c := c.next
  if c.rest.isEmpty then throw ⟨.countUnclosed, c.since start, none⟩
  if c.peek? == some '\x7d' then return (⟨← least, none⟩, c)
  let n ← least
  let (most, c) := decimal c
  return (⟨n, some (← most)⟩, c)

/-- Goes over a question mark, which asks for the shortest stretch first. -/
def lazily (c : Cursor) : Cursor :=
  if c.peek? == some '?' then c.drop 1 else c

/-- A count in braces. The cursor stands before the first one. -/
def counted (c : Cursor) : Except Fault (Count × Cursor) := do
  let start := c.offset
  let (count, c) ← countNumbers start c.next
  if c.peek? != some '\x7d' then throw ⟨.countUnclosed, c.since start, none⟩
  let c := lazily c.next
  if count.most.any (· < count.least) then throw ⟨.countOrder, c.since start, none⟩
  return (count, c)

/-- How often the sign at the cursor repeats what stands before it, if it is such a sign. -/
def count? (c : Cursor) : Option (Except Fault (Count × Cursor)) :=
  match c.peek? with
  | some '?' => some (.ok (⟨0, some 1⟩, lazily (c.drop 1)))
  | some '*' => some (.ok (⟨0, none⟩, lazily (c.drop 1)))
  | some '+' => some (.ok (⟨1, none⟩, lazily (c.drop 1)))
  | some '\x7b' => some (counted c)
  | _ => none

/-- What stands before a count, and the row without it. -/
def repeated? (r : Row) : Option ((Span × Phrase) × Row) :=
  match r.items with
  | [] | (_, .flags _) :: _ => none
  | item :: items => some (item, { r with items := items })

/-! ## Steps -/

def openGroup (s : State) (c : Cursor) : Except Fault (State × Cursor) := do
  let inside (s : State) (change : FlagChange) : State :=
    { s with row := {}, groups := ⟨s.row, c.this, change, c.verbose⟩ :: s.groups }
  match ← Group.read c with
  | (.flags change, c') =>
      return (s.add (c'.since c.offset, .flags change), { c' with verbose := change.apply .verbose c'.verbose })
  | (.group change, c') =>
      return (inside s change, { c' with verbose := change.apply .verbose c'.verbose })
  | (.named name span, c') =>
      match s.names.find? (·.1 == name) with
      | some (_, earlier) => throw ⟨.nameRepeated, span, some earlier⟩
      | none => return (inside { s with names := (name, span) :: s.names } {}, c')

def closeGroup (s : State) (c : Cursor) : Except Fault (State × Cursor) :=
  match s.groups with
  | [] => .error ⟨.groupUnopened, c.this, none⟩
  | g :: groups =>
      let c := { c.drop 1 with verbose := g.verbose }
      let span := c.since g.span.start
      .ok ({ s with row := g.outside.add (span, .group span g.change s.row.phrase), groups := groups }, c)

/-- A character that is no sign, or a sign that stands for a character or a place. -/
def primitive (d : Char) (c : Cursor) : Except Fault ((Span × Phrase) × Cursor) :=
  if d == '\\' then Escape.read c
  else if d == '[' then Bracket.read c
  else
    let p : Phrase :=
      if d == '.' then .dot c.this
      else if d == '^' then .lineStart
      else if d == '$' then .lineEnd
      else .letter ⟨c.this, d, false⟩
    .ok ((c.this, p), c.drop 1)

def step (s : State) (d : Char) (c : Cursor) : Except Fault (State × Cursor) :=
  if d == '(' then openGroup s c
  else if d == ')' then closeGroup s c
  else if d == '|' then .ok ({ s with row := s.row.split }, c.drop 1)
  else match count? c with
    | some counted => match repeated? s.row with
      | none => .error ⟨.nothingRepeated, c.here, none⟩
      | some ((span, p), row) => do
          let (count, c) ← counted
          let span := c.since span.start
          .ok ({ s with row := row.add (span, .repetition span p count.least count.most) }, c)
    | none => do
        let (item, c) ← primitive d c
        .ok (s.add item, c)

/-- At the end of the text no group is open, and none stands inside too many others. -/
def finish (s : State) : Except Fault Phrase :=
  match s.groups with
  | g :: _ => .error ⟨.groupUnclosed, g.span, none⟩
  | [] => match s.row.phrase.tooDeep? 250 with
    | some span => .error ⟨.nestedTooDeep, span, none⟩
    | none => .ok s.row.phrase

/-- Reads the rest of a text. A step that reads nothing is the last. -/
def run (s : State) (c : Cursor) : Except Fault Phrase :=
  match c.skip.peek? with
  | none => finish s
  | some d => match step s d c.skip with
    | .error f => .error f
    | .ok (s', c') => if c'.rest.length < c.rest.length then run s' c' else finish s'
termination_by c.rest.length

end Reader

def Phrase.ofText (text : String) : Except Fault Phrase :=
  Reader.run {} ⟨text.toList, 0, false⟩

end MethodSearch.Expression
