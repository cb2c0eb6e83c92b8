/-!
# Faults of expressions

Why a text is no expression, and the drawing that shows where: the text with the stretch at fault marked below.
-/

namespace MethodSearch.Expression

/-- A stretch of a text, from the number of characters before it to the number before its end. -/
structure Span where
  start : Nat
  stop : Nat
  deriving Repr, DecidableEq

inductive Cause where
  | boundaryUnclosed
  | boundaryUnfinished
  | boundaryUnknown
  | caseUnavailable
  | classEscape
  | classRange
  | classRangeBoundary
  | classUnclosed
  | countEmpty
  | countOrder
  | countTooLarge
  | countUnclosed
  | escapeUnfinished
  | escapeUnknown
  | flagDangling
  | flagNegatedTwice
  | flagRepeated
  | flagUnfinished
  | flagUnknown
  | groupUnclosed
  | groupUnopened
  | hexDigit
  | hexEmpty
  | hexValue
  | letterClassUnavailable
  | lookAround
  | nameCharacter
  | nameEmpty
  | nameRepeated
  | nameUnfinished
  | nestedTooDeep
  | nothingRepeated
  | notUtf8
  | propertyLetter
  | propertyUnknown
  | reference
  | unicodeRefused
  deriving Repr, DecidableEq

def Cause.message : Cause → String
  | .boundaryUnclosed =>
      "special word boundary assertion is either unclosed or contains an invalid character"
  | .boundaryUnfinished =>
      "found either the beginning of a special word boundary or a bounded repetition on a \\b with an opening " ++
        "brace, but no closing brace"
  | .boundaryUnknown =>
      "unrecognized special word boundary assertion, valid choices are: start, end, start-half or end-half"
  | .caseUnavailable =>
      "Unicode-aware case insensitivity matching is not available (make sure the unicode-case feature is enabled)"
  | .classEscape => "invalid escape sequence found in character class"
  | .classRange => "invalid character class range, the start must be <= the end"
  | .classRangeBoundary => "invalid range boundary, must be a literal"
  | .classUnclosed => "unclosed character class"
  | .countEmpty => "repetition quantifier expects a valid decimal"
  | .countOrder => "invalid repetition count range, the start must be <= the end"
  | .countTooLarge => "decimal literal invalid"
  | .countUnclosed => "unclosed counted repetition"
  | .escapeUnfinished => "incomplete escape sequence, reached end of pattern prematurely"
  | .escapeUnknown => "unrecognized escape sequence"
  | .flagDangling => "dangling flag negation operator"
  | .flagNegatedTwice => "flag negation operator repeated"
  | .flagRepeated => "duplicate flag"
  | .flagUnfinished => "expected flag but got end of regex"
  | .flagUnknown => "unrecognized flag"
  | .groupUnclosed => "unclosed group"
  | .groupUnopened => "unopened group"
  | .hexDigit => "invalid hexadecimal digit"
  | .hexEmpty => "hexadecimal literal empty"
  | .hexValue => "hexadecimal literal is not a Unicode scalar value"
  | .letterClassUnavailable =>
      "Unicode-aware Perl class not found (make sure the unicode-perl feature is enabled)"
  | .lookAround => "look-around, including look-ahead and look-behind, is not supported"
  | .nameCharacter => "invalid capture group character"
  | .nameEmpty => "empty capture group name"
  | .nameRepeated => "duplicate capture group name"
  | .nameUnfinished => "unclosed capture group name"
  | .nestedTooDeep => "exceed the maximum number of nested parentheses/brackets (250)"
  | .nothingRepeated => "repetition operator missing expression"
  | .notUtf8 => "pattern can match invalid UTF-8"
  | .propertyLetter => "invalid Unicode character class"
  | .propertyUnknown => "Unicode property not found"
  | .reference => "backreferences are not supported"
  | .unicodeRefused => "Unicode not allowed here"

/-- A cause and where it lies. Where two places clash the earlier one is marked too. -/
structure Fault where
  cause : Cause
  span : Span
  earlier : Option Span := none
  deriving Repr, DecidableEq

namespace Fault

/-- Blanks up to a stretch and a mark for each of its characters, at least one, from a column on. -/
def underline (column : Nat) (span : Span) : String :=
  "".pushn ' ' (span.start - column) |>.pushn '^' (max 1 (span.stop - span.start))

/-- The line below the text. -/
def marks (f : Fault) : String :=
  match f.earlier with
  | none => underline 0 f.span
  | some e => underline 0 e ++ underline (max e.stop (e.start + 1)) f.span

def message (f : Fault) (text : String) : String :=
  "regex parse error:\n    " ++ text ++ "\n    " ++ f.marks ++ "\nerror: " ++ f.cause.message

end Fault

end MethodSearch.Expression
