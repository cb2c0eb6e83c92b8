import MethodSearch.Expression.Basic
import MethodSearch.Expression.Fault

/-!
# Phrases

Expressions as they are written: flags where they are set, characters and classes with their places. What a phrase
means depends on the flags that hold where it stands.
-/

namespace MethodSearch.Expression

inductive Flag where
  | ignoreCase
  | multiLine
  | dotAll
  | swapGreed
  | unicode
  | crlf
  | verbose
  deriving Repr, DecidableEq

def Flag.ofLetter? : Char → Option Flag
  | 'i' => some .ignoreCase
  | 'm' => some .multiLine
  | 's' => some .dotAll
  | 'U' => some .swapGreed
  | 'u' => some .unicode
  | 'R' => some .crlf
  | 'x' => some .verbose
  | _ => none

structure FlagChange where
  set : List Flag := []
  cleared : List Flag := []
  deriving Repr, DecidableEq

def FlagChange.apply (change : FlagChange) (flag : Flag) (value : Bool) : Bool :=
  if flag ∈ change.set then true
  else if flag ∈ change.cleared then false
  else value

/-- A character, perhaps given by two hexadecimal digits. -/
structure Letter where
  span : Span
  char : Char
  isByte : Bool := false
  deriving Repr, DecidableEq

inductive LetterClass where
  | digit
  | space
  | word
  deriving Repr, DecidableEq

def LetterClass.ofLetter? : Char → Option LetterClass
  | 'd' | 'D' => some .digit
  | 's' | 'S' => some .space
  | 'w' | 'W' => some .word
  | _ => none

def LetterClass.set : LetterClass → CharSet
  | .digit => .range '0' '9'
  | .space => .union (.range '\t' '\r') (.single ' ')
  | .word => .ofRanges [('0', '9'), ('A', 'Z'), ('_', '_'), ('a', 'z')]

def asciiClass? : String → Option CharSet
  | "alnum" => some (.ofRanges [('0', '9'), ('A', 'Z'), ('a', 'z')])
  | "alpha" => some (.ofRanges [('A', 'Z'), ('a', 'z')])
  | "ascii" => some (.range '\x00' '\x7f')
  | "blank" => some (.ofRanges [('\t', '\t'), (' ', ' ')])
  | "cntrl" => some (.ofRanges [('\x00', '\x1f'), ('\x7f', '\x7f')])
  | "digit" => some (.range '0' '9')
  | "graph" => some (.range '!' '~')
  | "lower" => some (.range 'a' 'z')
  | "print" => some (.range ' ' '~')
  | "punct" => some (.ofRanges [('!', '/'), (':', '@'), ('[', '\x60'), ('\x7b', '~')])
  | "space" => some (.union (.range '\t' '\r') (.single ' '))
  | "upper" => some (.range 'A' 'Z')
  | "word" => some (.ofRanges [('0', '9'), ('A', 'Z'), ('_', '_'), ('a', 'z')])
  | "xdigit" => some (.ofRanges [('0', '9'), ('A', 'F'), ('a', 'f')])
  | _ => none

inductive ClassOperation where
  | common
  | difference
  | symmetricDifference
  deriving Repr, DecidableEq

inductive ClassPhrase where
  | nothing
  | letter (l : Letter)
  | range (first last : Letter)
  | ascii (s : CharSet) (negated : Bool)
  | named (span : Span) (c : LetterClass) (negated : Bool)
  | property (span : Span)
  | nested (span : Span) (inside : ClassPhrase) (negated : Bool)
  | union (a b : ClassPhrase)
  | combined (op : ClassOperation) (a b : ClassPhrase)
  deriving Repr, DecidableEq

/-! ## Phrases -/

inductive Phrase where
  | empty
  | flags (change : FlagChange)
  | letter (l : Letter)
  | dot (span : Span)
  /-- The sign for the start of a line or text, or for its end. -/
  | lineStart
  | lineEnd
  | textStart
  | textEnd
  /-- One of the anchors that look for words. -/
  | word (a : Anchor)
  | named (span : Span) (c : LetterClass) (negated : Bool)
  | property (span : Span)
  | bracketed (span : Span) (inside : ClassPhrase) (negated : Bool)
  | repetition (span : Span) (p : Phrase) (least : Nat) (most : Option Nat)
  | group (span : Span) (change : FlagChange) (p : Phrase)
  | chain (first second : Phrase)
  | either (first second : Phrase)
  deriving Repr, DecidableEq

namespace Phrase

def ofList : List Phrase → Phrase
  | [] => .empty
  | [p] => p
  | p :: ps => .chain p (ofList ps)

def ofChoices : List Phrase → Phrase
  | [] => .empty
  | [p] => p
  | p :: ps => .either p (ofChoices ps)

/-- The first phrase that stands inside more others than allowed, if it is a group or a repetition. -/
def tooDeep? (allowed : Nat) : Phrase → Option Span
  | .repetition span p _ _ | .group span _ p => match allowed with
    | 0 => some span
    | k + 1 => p.tooDeep? k
  | .chain p q | .either p q => (p.tooDeep? allowed).or (q.tooDeep? allowed)
  | _ => none

end Phrase

end MethodSearch.Expression
