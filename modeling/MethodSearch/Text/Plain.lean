/-!
# Plain text

What is left of a text without control characters and without the sequences that steer a terminal. White space
stays, also inside a sequence: it is shown with the text behind it, and the sequence goes on at the next control
character.
-/

namespace MethodSearch.Text.Plain

/-- The white space of ASCII, but for the vertical tab. -/
def isWhite (c : Char) : Bool :=
  c == ' ' || c == '\t' || c == '\n' || c == '\x0c' || c == '\r'

/-- Characters that are no controls of ASCII, and white space. -/
def isShown (c : Char) : Bool :=
  isWhite c || (0x20 ≤ c.toNat && c.toNat != 0x7F)

def isBetween (low high : Nat) (c : Char) : Bool :=
  low ≤ c.toNat && c.toNat ≤ high

/-- Whether the UTF-8 bytes of a character hold the byte that ends a string of a device. -/
def endsString (c : Char) : Bool :=
  let n := c.toNat
  (0x80 ≤ n && n % 64 == 28) || (0x800 ≤ n && n / 64 % 64 == 28) || (0x10000 ≤ n && n / 4096 % 64 == 28)

/-- What the text is in the middle of. -/
inductive Sequence where
  | none
  | escape
  /-- An escape character and what selects among its commands. -/
  | selected
  /-- The parameters of a control sequence. -/
  | control
  /-- The parameters of a string for a device: none of them, some of them, and what stands behind them. -/
  | device
  | deviceParameters
  | deviceSelected
  /-- A string up to its terminator. -/
  | string
  /-- A command of the operating system, which a bell ends too. -/
  | command
  deriving Repr, DecidableEq

namespace Sequence

/-- The sequence behind a character. Cancelling ends every sequence, and an escape character begins a new one. -/
def next (q : Sequence) (c : Char) : Sequence :=
  if c == '\x18' || c == '\x1a' then .none
  else if c == '\x1b' then .escape
  else match q with
    | .none => .none
    | .escape =>
        if isBetween 0x20 0x2F c then .selected
        else if c == '[' then .control
        else if c == ']' then .command
        else if c == 'P' then .device
        else if c == 'X' || c == '^' || c == '_' then .string
        else if isBetween 0x30 0x7E c then .none
        else .escape
    | .selected => if isBetween 0x30 0x7E c then .none else .selected
    | .control => if isBetween 0x40 0x7E c then .none else .control
    | .device =>
        if isBetween 0x20 0x2F c then .deviceSelected
        else if isBetween 0x30 0x3F c then .deviceParameters
        else if isBetween 0x40 0x7E c then .string
        else .device
    | .deviceParameters =>
        if isBetween 0x20 0x2F c then .deviceSelected
        else if isBetween 0x3C 0x7E c then .string
        else .deviceParameters
    | .deviceSelected => if isBetween 0x30 0x7E c then .string else .deviceSelected
    | .string => if endsString c then .none else .string
    | .command => if c == '\x07' then .none else .command

/-- Whether a character is shown in spite of the sequence. Strings swallow everything. -/
def shows (q : Sequence) (c : Char) : Bool :=
  match q with
  | .none => isShown c
  | .escape | .selected | .control => c != ' ' && isWhite c
  | _ => false

end Sequence

/-- A sequence, and whether it waits while text is shown. -/
structure State where
  sequence : Sequence := .none
  waits : Bool := false
  deriving Repr, DecidableEq

/-- The state behind a character, and whether the character is shown. A character that is not of ASCII ends the
sequence that waits. -/
def State.step (s : State) (c : Char) : State × Bool :=
  if s.waits && isShown c then (if c.toNat < 0x80 then s else { s with sequence := .none }, true)
  else if !s.waits && s.sequence.shows c then ({ s with waits := true }, true)
  else (⟨s.sequence.next c, false⟩, false)

def shownFrom : State → List Char → List Char
  | _, [] => []
  | s, c :: rest =>
      match s.step c with
      | (s, true) => c :: shownFrom s rest
      | (s, false) => shownFrom s rest

end Plain

/-- A text without control characters and sequences. -/
def plain (s : String) : String :=
  String.ofList (Plain.shownFrom {} s.toList)

end MethodSearch.Text
