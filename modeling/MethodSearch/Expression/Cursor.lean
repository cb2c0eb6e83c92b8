import MethodSearch.Expression.Fault
import MethodSearch.Text.Blank

/-!
# Cursors

A place in the text of an expression. Where the text is verbose, blanks and remarks between its signs say nothing.
-/

namespace MethodSearch.Expression

/-- What is left to read, and how many characters come before it. -/
structure Cursor where
  rest : List Char
  offset : Nat := 0
  verbose : Bool := false

namespace Cursor

/-- The empty stretch at the cursor. -/
def here (c : Cursor) : Span :=
  ⟨c.offset, c.offset⟩

/-- The stretch of the next character. -/
def this (c : Cursor) : Span :=
  ⟨c.offset, c.offset + 1⟩

/-- The stretch from an offset on. -/
def since (c : Cursor) (start : Nat) : Span :=
  ⟨start, c.offset⟩

def peek? (c : Cursor) : Option Char :=
  c.rest.head?

def drop (c : Cursor) (n : Nat) : Cursor :=
  { c with rest := c.rest.drop n, offset := c.offset + min n c.rest.length }

/-- The blanks and remarks at the start of a text. A remark goes from a number sign to the end of its line. -/
def blanks (inRemark : Bool) : List Char → Nat
  | [] => 0
  | c :: rest =>
      if inRemark then blanks (c != '\n') rest + 1
      else if Text.isBlank c then blanks false rest + 1
      else if c == '#' then blanks true rest + 1
      else 0

/-- Goes on to the next sign. -/
def skip (c : Cursor) : Cursor :=
  if c.verbose then c.drop (blanks false c.rest) else c

def next (c : Cursor) : Cursor :=
  (c.drop 1).skip

/-- The characters of a kind, and how many there are with the blanks and remarks among them. -/
def runOf (kind : Char → Bool) (verbose inRemark : Bool) : List Char → List Char × Nat
  | [] => ([], 0)
  | c :: rest =>
      let further (inRemark : Bool) : List Char × Nat :=
        let (found, n) := runOf kind verbose inRemark rest
        (found, n + 1)
      if inRemark then further (c != '\n')
      else if kind c then
        let (found, n) := runOf kind verbose false rest
        (c :: found, n + 1)
      else if verbose && Text.isBlank c then further false
      else if verbose && c == '#' then further true
      else ([], 0)

def takeWhile (kind : Char → Bool) (c : Cursor) : List Char × Cursor :=
  let (found, n) := runOf kind c.verbose false c.rest
  (found, c.drop n)

def skipBlanks (c : Cursor) : Cursor :=
  c.drop (c.rest.takeWhile Text.isBlank).length

/-- What comes after some characters, if they are next. -/
def after? (c : Cursor) (word : String) : Option Cursor :=
  if word.toList.isPrefixOf c.rest then some (c.drop word.length) else none

end Cursor

end MethodSearch.Expression
