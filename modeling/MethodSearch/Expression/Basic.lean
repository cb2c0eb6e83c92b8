/-!
# Expressions

Regular expressions: what a stretch of a text has to look like. A place between two characters can be asked for its
surroundings, and everything else is made of sets of characters.
-/

namespace MethodSearch

inductive CharSet where
  /-- The characters from one to another. -/
  | range (first last : Char)
  | union (s t : CharSet)
  | common (s t : CharSet)
  | complement (s : CharSet)
  /-- The letters of ASCII in both cases, where one of them is in the set. -/
  | anyCase (s : CharSet)
  deriving Repr, DecidableEq

namespace CharSet

def swapCase (c : Char) : Char :=
  if c.isUpper then c.toLower else if c.isLower then c.toUpper else c

def contains : CharSet → Char → Bool
  | .range first last, c => first ≤ c && c ≤ last
  | .union s t, c => s.contains c || t.contains c
  | .common s t, c => s.contains c && t.contains c
  | .complement s, c => !s.contains c
  | .anyCase s, c => s.contains c || s.contains (swapCase c)

def single (c : Char) : CharSet :=
  .range c c

def all : CharSet :=
  .range '\x00' (Char.ofNat 0x10FFFF)

def none : CharSet :=
  .complement all

def ofRanges (ranges : List (Char × Char)) : CharSet :=
  ranges.foldr (fun r s => .union (.range r.1 r.2) s) none

/-- Whether all members are of ASCII, among those that one byte can hold. -/
def isAscii (s : CharSet) : Bool :=
  (List.range 128).all fun n => !s.contains (Char.ofNat (128 + n))

end CharSet

/-- What the characters around a place say of it. -/
inductive Anchor where
  | textStart
  | textEnd
  | lineStart
  | lineEnd
  /-- Lines that also a carriage return ends. -/
  | lineStartCrlf
  | lineEndCrlf
  /-- A word of ASCII begins or ends. -/
  | wordBoundary
  | noWordBoundary
  | wordStart
  | wordEnd
  /-- No word comes before. -/
  | wordStartHalf
  /-- No word comes behind. -/
  | wordEndHalf
  deriving Repr, DecidableEq

namespace Anchor

/-- Letters, digits and the underscore of ASCII. -/
def isWord : Option Char → Bool
  | some c => c.isAlphanum || c == '_'
  | none => false

def holds (before after : Option Char) : Anchor → Bool
  | .textStart => before.isNone
  | .textEnd => after.isNone
  | .lineStart => before.isNone || before == some '\n'
  | .lineEnd => after.isNone || after == some '\n'
  | .lineStartCrlf => before.isNone || before == some '\n' || (before == some '\r' && after != some '\n')
  | .lineEndCrlf => after.isNone || after == some '\r' || (after == some '\n' && before != some '\r')
  | .wordBoundary => isWord before != isWord after
  | .noWordBoundary => isWord before == isWord after
  | .wordStart => !isWord before && isWord after
  | .wordEnd => isWord before && !isWord after
  | .wordStartHalf => !isWord before
  | .wordEndHalf => !isWord after

end Anchor

inductive Expression where
  | empty
  | one (s : CharSet)
  | anchor (a : Anchor)
  | chain (first second : Expression)
  | either (first second : Expression)
  /-- A number of stretches in a row, with a least number and perhaps a most. -/
  | repeated (e : Expression) (least : Nat) (most : Option Nat)
  deriving Repr, DecidableEq

namespace Expression

/-- The steps of an expression when its repetitions are written out. Ten stand for a set beyond ASCII. -/
def steps : Expression → Nat
  | .empty => 0
  | .one s => if s.isAscii then 1 else 10
  | .anchor _ => 1
  | .chain e f => e.steps + f.steps
  | .either e f => e.steps + f.steps + 1
  | .repeated e least most => e.steps * max (most.getD (least + 1)) 1

end Expression

end MethodSearch
