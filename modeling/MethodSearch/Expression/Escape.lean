import MethodSearch.Expression.Cursor
import MethodSearch.Expression.Phrase

/-!
# Escapes

What a backslash makes of the characters behind it: a sign without its meaning, a character by its number, a class
or an anchor.
-/

namespace MethodSearch.Expression.Escape

def isHex (c : Char) : Bool :=
  c.isDigit || ('a' ≤ c && c ≤ 'f') || ('A' ≤ c && c ≤ 'F')

def hexValue (c : Char) : Nat :=
  if c.isDigit then c.toNat - 48 else c.toLower.toNat - 87

def hexNumber (digits : List Char) : Nat :=
  digits.foldl (fun n c => 16 * n + hexValue c) 0

/-- The character of some digits, which lie somewhere. -/
def hexChar (span : Span) (digits : List Char) : Except Fault Char :=
  let n := hexNumber digits
  if n.isValidChar then .ok (Char.ofNat n) else .error ⟨.hexValue, span, none⟩

def hexDigits : Nat → Cursor → Except Fault (List Char × Cursor)
  | 0, c => .ok ([], c)
  | k + 1, c => match c.peek? with
    | none => .error ⟨.escapeUnfinished, c.here, none⟩
    | some d =>
        if isHex d then do
          let (ds, c) ← hexDigits k c.next
          .ok (d :: ds, c)
        else .error ⟨.hexDigit, c.this, none⟩

/-- Digits between braces. The cursor stands before the first brace. -/
def hexInBraces (c : Cursor) : Except Fault (Char × Cursor) := do
  let inside := c.drop 1
  let (digits, stop) := inside.skip.takeWhile isHex
  match stop.peek? with
  | none => .error ⟨.escapeUnfinished, stop.since c.offset, none⟩
  | some d =>
      if d != '\x7d' then .error ⟨.hexDigit, stop.this, none⟩
      else if digits.isEmpty then .error ⟨.hexEmpty, stop.next.since c.offset, none⟩
      else do
        let char ← hexChar (stop.since inside.offset) digits
        .ok (char, stop.next)

/-- A character by its number. The cursor stands before the letter that says how many digits it has. -/
def numbered (start width : Nat) (c : Cursor) : Except Fault ((Span × Phrase) × Cursor) := do
  let first := c.next
  match first.peek? with
  | none => .error ⟨.escapeUnfinished, first.here, none⟩
  | some '\x7b' => do
      let (char, c) ← hexInBraces first
      let span := c.since start
      .ok ((span, .letter ⟨span, char, false⟩), c)
  | some _ => do
      let (digits, c) ← hexDigits width first
      let char ← hexChar (c.since first.offset) digits
      let span := c.since start
      .ok ((span, .letter ⟨span, char, width == 2⟩), c)

/-- A property by one letter or by a name in braces. -/
def property (start : Nat) (c : Cursor) : Except Fault ((Span × Phrase) × Cursor) :=
  let first := c.next
  match first.peek? with
  | none => .error ⟨.escapeUnfinished, first.here, none⟩
  | some '\x7b' =>
      let (_, stop) := first.next.takeWhile (· != '\x7d')
      match stop.peek? with
      | none => .error ⟨.escapeUnfinished, stop.here, none⟩
      | some _ =>
          let c := stop.drop 1
          .ok ((c.since start, .property (c.since start)), c)
  | some '\\' => .error ⟨.propertyLetter, first.this, none⟩
  | some _ => .ok ((first.next.since start, .property (first.next.since start)), first.next)

def boundary? : String → Option Anchor
  | "start" => some .wordStart
  | "end" => some .wordEnd
  | "start-half" => some .wordStartHalf
  | "end-half" => some .wordEndHalf
  | _ => none

def isBoundaryLetter (c : Char) : Bool :=
  c.isAlpha || c == '-'

/-- The boundary of a word, perhaps with the name of a special one in braces. Braces that hold something else are a
count. The cursor stands behind the letter. -/
def boundary (start : Nat) (c : Cursor) : Except Fault ((Span × Phrase) × Cursor) :=
  let usual : (Span × Phrase) × Cursor := ((c.since start, .word .wordBoundary), c)
  if c.peek? != some '\x7b' then .ok usual
  else
    let first := c.next
    match first.peek? with
    | none => .error ⟨.boundaryUnfinished, first.since start, none⟩
    | some d =>
        if !isBoundaryLetter d then .ok usual
        else
          let (name, stop) := first.takeWhile isBoundaryLetter
          if stop.peek? != some '\x7d' then .error ⟨.boundaryUnclosed, stop.since c.offset, none⟩
          else match boundary? (String.ofList name) with
            | none => .error ⟨.boundaryUnknown, stop.since first.offset, none⟩
            | some a => .ok (((stop.drop 1).since start, .word a), stop.drop 1)

/-! ## All escapes -/

/-- Signs of ASCII stand for themselves. -/
def isSign (c : Char) : Bool :=
  c.toNat < 0x80 && !c.isAlphanum && c != '<' && c != '>'

def control? : Char → Option Char
  | 'a' => some '\x07'
  | 'f' => some '\x0c'
  | 't' => some '\t'
  | 'n' => some '\n'
  | 'r' => some '\r'
  | 'v' => some '\x0b'
  | _ => none

def anchor? : Char → Option Phrase
  | 'A' => some .textStart
  | 'z' => some .textEnd
  | 'B' => some (.word .noWordBoundary)
  | '<' => some (.word .wordStart)
  | '>' => some (.word .wordEnd)
  | _ => none

/-- What one character means behind a backslash. -/
def simple (start : Nat) (d : Char) (c : Cursor) : Except Fault ((Span × Phrase) × Cursor) :=
  let span := c.since start
  if isSign d then .ok ((span, .letter ⟨span, d, false⟩), c)
  else match LetterClass.ofLetter? d, control? d, anchor? d with
    | some cls, _, _ => .ok ((span, .named span cls d.isUpper), c)
    | _, some char, _ => .ok ((span, .letter ⟨span, char, false⟩), c)
    | _, _, some a => .ok ((span, a), c)
    | none, none, none => if d == 'b' then boundary start c else .error ⟨.escapeUnknown, span, none⟩

/-- Reads an escape. The cursor stands before the backslash. -/
def read (c : Cursor) : Except Fault ((Span × Phrase) × Cursor) :=
  let start := c.offset
  let c := c.drop 1
  match c.peek? with
  | none => .error ⟨.escapeUnfinished, c.since start, none⟩
  | some d =>
      if d.isDigit then .error ⟨.reference, (c.drop 1).since start, none⟩
      else if d == 'x' then numbered start 2 c
      else if d == 'u' then numbered start 4 c
      else if d == 'U' then numbered start 8 c
      else if d == 'p' || d == 'P' then property start c
      else simple start d (c.drop 1)

end MethodSearch.Expression.Escape
