import MethodSearch.Expression.Escape

/-!
# Classes in brackets

Characters, ranges and other classes between brackets. Two signs in a row put what comes before together with what
comes behind.
-/

namespace MethodSearch.Expression.Bracket

structure Level where
  span : Span
  negated : Bool
  /-- What stands before the last sign that puts classes together. -/
  pending : Option (ClassOperation × ClassPhrase) := none
  items : ClassPhrase := .nothing

namespace Level

def add (l : Level) (item : ClassPhrase) : Level :=
  { l with items := .union l.items item }

def value (l : Level) : ClassPhrase :=
  match l.pending with
  | none => l.items
  | some (op, first) => .combined op first l.items

def operate (l : Level) (op : ClassOperation) : Level :=
  { l with pending := some (op, l.value), items := .nothing }

def unclosed (l : Level) : Fault :=
  ⟨.classUnclosed, l.span, none⟩

end Level

def plain (span : Span) (c : Char) : ClassPhrase :=
  .letter ⟨span, c, false⟩

/-- Dashes at the start, or else a bracket there, are no signs. -/
def openingItems (dashes : List Char) (c : Cursor) : Option Char → ClassPhrase × Cursor
  | some ']' => if dashes.isEmpty then (plain c.this ']', c.next) else (plain c.here '-', c)
  | _ => if dashes.isEmpty then (.nothing, c) else (plain c.here '-', c)

/-- Opens a bracket. The cursor stands before it. -/
def openLevel (c : Cursor) : Except Fault (Level × Cursor) :=
  let start := c.offset
  let first := c.next
  let negated := first.peek? == some '^'
  let inside := if negated then first.next else first
  if inside.rest.isEmpty then .error ⟨.classUnclosed, inside.since start, none⟩
  else
    let (dashes, behind) := inside.takeWhile (· == '-')
    if behind.rest.isEmpty then .error ⟨.classUnclosed, ⟨start, start⟩, none⟩
    else
      let (items, c) := openingItems dashes behind behind.peek?
      if c.rest.isEmpty then .error ⟨.classUnclosed, c.since start, none⟩
      else .ok ({ span := c.since start, negated := negated, items := items }, c)

/-! ## Items -/

/-- A class of ASCII by its name in colons. -/
def named? (c : Cursor) : Option (ClassPhrase × Cursor) :=
  match c.rest with
  | '[' :: ':' :: more =>
      let negated := more.head? == some '^'
      let name := (if negated then more.drop 1 else more).takeWhile (· != ':')
      let before := (if negated then 3 else 2) + name.length
      match c.rest.drop before, asciiClass? (String.ofList name) with
      | ':' :: ']' :: _, some s => some (.ascii s negated, c.drop (before + 2))
      | _, _ => none
  | _ => none

def primitive (c : Cursor) : Except Fault ((Span × Phrase) × Cursor) :=
  match c.peek? with
  | some '\\' => Escape.read c
  | some d => .ok ((c.this, .letter ⟨c.this, d, false⟩), c.drop 1)
  | none => .error ⟨.escapeUnfinished, c.here, none⟩

def asItem : Span × Phrase → Except Fault ClassPhrase
  | (_, .letter l) => .ok (.letter l)
  | (_, .named span cls negated) => .ok (.named span cls negated)
  | (_, .property span) => .ok (.property span)
  | (span, _) => .error ⟨.classEscape, span, none⟩

def asBoundary : Span × Phrase → Except Fault Letter
  | (_, .letter l) => .ok l
  | (span, _) => .error ⟨.classRangeBoundary, span, none⟩

/-- Whether a dash makes a range of what stands around it. -/
def startsRange (c : Cursor) : Bool :=
  c.peek? == some '-' && c.next.peek? != some ']' && c.next.peek? != some '-'

def item (l : Level) (c : Cursor) : Except Fault (ClassPhrase × Cursor) := do
  let (first, c) ← primitive c
  let c := c.skip
  if c.rest.isEmpty then .error l.unclosed
  else if !startsRange c then .ok (← asItem first, c)
  else if c.next.rest.isEmpty then .error l.unclosed
  else
    let (last, c) ← primitive c.next
    let low ← asBoundary first
    let high ← asBoundary last
    if high.char < low.char then .error ⟨.classRange, ⟨first.1.start, last.1.stop⟩, none⟩
    else .ok (.range low high, c)

def operation? (c : Cursor) : Option ClassOperation :=
  match c.rest with
  | '&' :: '&' :: _ => some .common
  | '-' :: '-' :: _ => some .difference
  | '~' :: '~' :: _ => some .symmetricDifference
  | _ => none

/-- Where the reader stands behind a step: in open brackets, the innermost first, or behind the class. -/
inductive Turn where
  | inside (l : Level) (outer : List Level)
  | done (p : Span × Phrase)

def close (l : Level) (outer : List Level) (c : Cursor) : Turn :=
  let span := c.since l.span.start
  match outer with
  | [] => .done (span, .bracketed span l.value l.negated)
  | o :: outer => .inside (o.add (.nested span l.value l.negated)) outer

def step (l : Level) (outer : List Level) (c : Cursor) : Except Fault (Turn × Cursor) :=
  match c.peek? with
  | none => .error l.unclosed
  | some d =>
      if d == '[' then
        match named? c with
        | some (p, c) => .ok (.inside (l.add p) outer, c)
        | none => do
            let (inner, c) ← openLevel c
            .ok (.inside inner (l :: outer), c)
      else if d == ']' then .ok (close l outer (c.drop 1), c.drop 1)
      else match operation? c with
        | some op => .ok (.inside (l.operate op) outer, c.drop 2)
        | none => do
            let (p, c) ← item l c
            .ok (.inside (l.add p) outer, c)

/-- Reads the rest of a class. A step that reads nothing leaves the bracket open. -/
def rest (l : Level) (outer : List Level) (c : Cursor) : Except Fault ((Span × Phrase) × Cursor) :=
  match step l outer c.skip with
  | .error f => .error f
  | .ok (.done p, c') => .ok (p, c')
  | .ok (.inside l' outer', c') =>
      if c'.rest.length < c.rest.length then rest l' outer' c' else .error l.unclosed
termination_by c.rest.length

/-- Reads a class. The cursor stands before its bracket. -/
def read (c : Cursor) : Except Fault ((Span × Phrase) × Cursor) := do
  let (l, c) ← openLevel c
  rest l [] c

end MethodSearch.Expression.Bracket
